import Mathlib.Tactic.Common

namespace Transition

variable {σ ε : Type*} {step : σ → ε → σ → Prop}

-- The labels stand latest first, so a list function that recurses on them looks back in time.
inductive Path (step : σ → ε → σ → Prop) (first : σ) : List ε → σ → Prop
  | nil : Path step first [] first
  | snoc {log : List ε} {last next : σ} {label : ε} :
      Path step first log last → step last label next → Path step first (label :: log) next

def Run (init : σ → Prop) (step : σ → ε → σ → Prop) (log : List ε) (last : σ) : Prop :=
  ∃ first, init first ∧ Path step first log last

def Reachable (init : σ → Prop) (step : σ → ε → σ → Prop) (state : σ) : Prop :=
  ∃ log, Run init step log state

theorem Path.append {first middle last : σ} {older newer : List ε}
    (h : Path step first older middle) (h' : Path step middle newer last) :
    Path step first (newer ++ older) last := by
  induction h' with
  | nil => exact h
  | snoc _ hs ih => exact ih.snoc hs

theorem Path.split {first last : σ} {older : List ε} (newer : List ε)
    (h : Path step first (newer ++ older) last) :
    ∃ middle, Path step first older middle ∧ Path step middle newer last := by
  induction newer generalizing last with
  | nil => exact ⟨last, h, .nil⟩
  | cons label newer ih =>
      cases h with
      | snoc hp hs =>
          obtain ⟨middle, ho, hn⟩ := ih hp
          exact ⟨middle, ho, hn.snoc hs⟩

-- A property kept by the steps with an allowed label holds along a path of such labels.
theorem Path.invariant {P : σ → Prop} {allowed : ε → Prop}
    (hstep : ∀ state label next, P state → allowed label → step state label next → P next)
    {first last : σ} {log : List ε} (h : Path step first log last)
    (hallowed : ∀ label ∈ log, allowed label) (hfirst : P first) : P last := by
  induction h with
  | nil => exact hfirst
  | snoc _ hs ih =>
      exact hstep _ _ _ (ih fun label hl => hallowed label (List.mem_cons_of_mem _ hl))
        (hallowed _ List.mem_cons_self) hs

-- A step with the states around it, for statements about the states that a stretch visits.
structure Turn (σ ε : Type*) where
  before : σ
  label : ε
  after : σ

def Recorded (step : σ → ε → σ → Prop) (state : σ) (turn : Turn σ ε) (next : σ) : Prop :=
  turn.before = state ∧ turn.after = next ∧ step state turn.label next

-- The part of a stretch that leads up to one of its turns.
theorem Path.up_to {first last : σ} {turns : List (Turn σ ε)} {turn : Turn σ ε}
    (h : Path (Recorded step) first turns last) (hm : turn ∈ turns) :
    ∃ newer older, turns = newer ++ turn :: older ∧
      Path (Recorded step) first older turn.before ∧ step turn.before turn.label turn.after := by
  obtain ⟨newer, older, rfl⟩ := List.append_of_mem hm
  obtain ⟨middle, ho, -⟩ := Path.split newer h
  cases ho with
  | snoc ho hs =>
      obtain ⟨rfl, rfl, hs⟩ := hs
      exact ⟨newer, older, rfl, ho, hs⟩

theorem Path.labels {first last : σ} {turns : List (Turn σ ε)}
    (h : Path (Recorded step) first turns last) :
    Path step first (turns.map fun turn => turn.label) last := by
  induction h with
  | nil => exact .nil
  | snoc _ hs ih =>
      obtain ⟨rfl, rfl, hs⟩ := hs
      exact ih.snoc hs

-- Any path can be told with the states it visits.
theorem Path.recorded {first last : σ} {log : List ε} (h : Path step first log last) :
    ∃ turns, Path (Recorded step) first turns last ∧ turns.map (fun turn => turn.label) = log := by
  induction h with
  | nil => exact ⟨[], .nil, rfl⟩
  | @snoc log middle next label _ hs ih =>
      obtain ⟨turns, hturns, rfl⟩ := ih
      exact ⟨⟨middle, label, next⟩ :: turns, hturns.snoc ⟨rfl, rfl, hs⟩, rfl⟩

variable {init : σ → Prop}

theorem Run.start {state : σ} (h : init state) : Run init step [] state :=
  ⟨state, h, .nil⟩

theorem Run.snoc {log : List ε} {state next : σ} {label : ε} (h : Run init step log state)
    (hs : step state label next) : Run init step (label :: log) next := by
  obtain ⟨first, hi, hp⟩ := h
  exact ⟨first, hi, hp.snoc hs⟩

-- The states around one label of a history.
theorem Run.split_at {older newer : List ε} {last : σ} {label : ε}
    (h : Run init step (newer ++ label :: older) last) :
    ∃ state next, Run init step older state ∧ step state label next ∧
      Path step next newer last := by
  obtain ⟨first, hi, hp⟩ := h
  obtain ⟨middle, ho, hn⟩ := Path.split newer hp
  cases ho with
  | snoc ho hs => exact ⟨_, middle, ⟨first, hi, ho⟩, hs, hn⟩

theorem Run.reachable {log : List ε} {state : σ} (h : Run init step log state) :
    Reachable init step state := ⟨log, h⟩

-- The history takes part in the invariant, so it may speak of what a run has done so far.
theorem Run.invariant {P : List ε → σ → Prop} (hinit : ∀ state, init state → P [] state)
    (hstep : ∀ log state label next, Run init step log state → P log state →
      step state label next → P (label :: log) next)
    {log : List ε} {state : σ} (h : Run init step log state) : P log state := by
  obtain ⟨first, hi, hp⟩ := h
  induction hp with
  | nil => exact hinit _ hi
  | snoc hp hs ih => exact hstep _ _ _ _ ⟨first, hi, hp⟩ ih hs

-- Most systems start in one state.
theorem Run.invariant_from {P : List ε → σ → Prop} {start : σ} (hstart : P [] start)
    (hstep : ∀ log state label next, Run (· = start) step log state → P log state →
      step state label next → P (label :: log) next)
    {log : List ε} {state : σ} (h : Run (· = start) step log state) : P log state := by
  refine Run.invariant ?_ hstep h
  intro first hfirst
  rw [hfirst]
  exact hstart

theorem Run.mono {step' : σ → ε → σ → Prop}
    (hstep : ∀ state label next, step state label next → step' state label next)
    {log : List ε} {state : σ} (h : Run init step log state) : Run init step' log state := by
  refine Run.invariant (P := Run init step') ?_ ?_ h
  · exact fun _ hi => Run.start hi
  · exact fun _ _ _ _ _ ih hs => ih.snoc (hstep _ _ _ hs)

theorem Reachable.snoc {state next : σ} {label : ε} (h : Reachable init step state)
    (hs : step state label next) : Reachable init step next := by
  obtain ⟨log, hr⟩ := h
  exact ⟨_, hr.snoc hs⟩

theorem Reachable.append {first last : σ} {log : List ε} (h : Reachable init step first)
    (hp : Path step first log last) : Reachable init step last := by
  obtain ⟨older, start, hi, ho⟩ := h
  exact ⟨log ++ older, start, hi, ho.append hp⟩

theorem Reachable.invariant {P : σ → Prop} (hinit : ∀ state, init state → P state)
    (hstep : ∀ state label next, P state → step state label next → P next)
    {state : σ} (h : Reachable init step state) : P state := by
  obtain ⟨log, hr⟩ := h
  exact hr.invariant (P := fun _ state => P state) hinit
    fun _ _ _ _ _ ih hs => hstep _ _ _ ih hs

theorem Reachable.invariant_from {P : σ → Prop} {start : σ} (hstart : P start)
    (hstep : ∀ state label next, P state → step state label next → P next)
    {state : σ} (h : Reachable (· = start) step state) : P state := by
  obtain ⟨log, hr⟩ := h
  exact hr.invariant_from (P := fun _ state => P state) hstart
    fun _ _ _ _ _ ih hs => hstep _ _ _ ih hs

-- The latest label of a kind in a history, with the state it happened in.
def Latest (init : σ → Prop) (step : σ → ε → σ → Prop) (kind : ε → Prop) (log : List ε)
    (label : ε) (before : σ) : Prop :=
  kind label ∧ ∃ newer older, log = newer ++ label :: older ∧ Run init step older before ∧
    ∀ other ∈ newer, ¬kind other

theorem Latest.now {kind : ε → Prop} {log : List ε} {label : ε} {before : σ}
    (h : Run init step log before) (hkind : kind label) :
    Latest init step kind (label :: log) label before :=
  ⟨hkind, [], log, rfl, h, fun _ hm => absurd hm List.not_mem_nil⟩

theorem Latest.skip {kind : ε → Prop} {log : List ε} {label other : ε} {before : σ}
    (h : Latest init step kind log label before) (hother : ¬kind other) :
    Latest init step kind (other :: log) label before := by
  obtain ⟨hkind, newer, older, rfl, hrun, hquiet⟩ := h
  refine ⟨hkind, other :: newer, older, rfl, hrun, ?_⟩
  intro third hm
  rcases List.mem_cons.mp hm with rfl | hm
  · exact hother
  · exact hquiet third hm

section Replay

variable {α : Type*}

-- The run that a list of actions, first one first, leads to where every one of them happens.
def replay (perform : σ → α → Option (ε × σ)) : List α → σ → Option (List ε × σ)
  | [], state => some ([], state)
  | action :: rest, state => do
      let (label, next) ← perform state action
      let (log, last) ← replay perform rest next
      return (log ++ [label], last)

theorem replay_path {perform : σ → α → Option (ε × σ)}
    (hperform : ∀ state action label next, perform state action = some (label, next) →
      step state label next)
    {actions : List α} {state last : σ} {log : List ε}
    (h : replay perform actions state = some (log, last)) : Path step state log last := by
  induction actions generalizing state log with
  | nil =>
      obtain ⟨rfl, rfl⟩ : [] = log ∧ state = last := by simpa [replay] using h
      exact .nil
  | cons action rest ih =>
      obtain ⟨⟨label, next⟩, hp, h⟩ := Option.bind_eq_some_iff.mp h
      obtain ⟨⟨newer, final⟩, hr, h⟩ := Option.bind_eq_some_iff.mp h
      obtain ⟨rfl, rfl⟩ : newer ++ [label] = log ∧ final = last := by simpa using h
      have hfirst : Path step state [label] next := Path.nil.snoc (hperform _ _ _ _ hp)
      exact hfirst.append (ih hr)

-- What the actions lead to; the state itself where one of them cannot happen.
def outcome (perform : σ → α → Option (ε × σ)) (actions : List α) (state : σ) : List ε × σ :=
  (replay perform actions state).getD ([], state)

theorem outcome_path {perform : σ → α → Option (ε × σ)}
    (hperform : ∀ state action label next, perform state action = some (label, next) →
      step state label next)
    {actions : List α} {state : σ} (h : (replay perform actions state).isSome) :
    Path step state (outcome perform actions state).1 (outcome perform actions state).2 := by
  obtain ⟨⟨log, last⟩, hr⟩ := Option.isSome_iff_exists.mp h
  have ho : outcome perform actions state = (log, last) := by simp [outcome, hr]
  rw [ho]
  exact replay_path hperform hr

-- The same run with the states around each step.
def performTurn (perform : σ → α → Option (ε × σ)) (state : σ) (action : α) :
    Option (Turn σ ε × σ) :=
  (perform state action).map fun result => (⟨state, result.1, result.2⟩, result.2)

theorem outcome_turns {perform : σ → α → Option (ε × σ)}
    (hperform : ∀ state action label next, perform state action = some (label, next) →
      step state label next)
    {actions : List α} {state : σ} (h : (replay (performTurn perform) actions state).isSome) :
    Path (Recorded step) state (outcome (performTurn perform) actions state).1
      (outcome (performTurn perform) actions state).2 := by
  refine outcome_path ?_ h
  intro before action turn after hp
  obtain ⟨⟨label, next⟩, hlabel, he⟩ := Option.map_eq_some_iff.mp hp
  simp only [Prod.mk.injEq] at he
  obtain ⟨rfl, rfl⟩ := he
  exact ⟨rfl, rfl, hperform _ _ _ _ hlabel⟩

end Replay

section Once

variable {log : List ε} {p : ε → Bool} {event : ε} {Q R : Prop}

-- The history holds one event of a kind or none, as a fact about the present state says.
def Once (log : List ε) (p : ε → Bool) (Q : Prop) : Prop :=
  (Q → log.countP p = 1) ∧ (¬Q → log.countP p = 0)

theorem Once.nil (hq : ¬Q) : Once [] p Q :=
  ⟨fun h => absurd h hq, fun _ => rfl⟩

theorem Once.skip (h : Once log p Q) (hp : p event = false) (hr : R ↔ Q) :
    Once (event :: log) p R := by
  simpa [Once, List.countP_cons, hp, hr] using h

theorem Once.mark (h : Once log p Q) (hp : p event = true) (hq : ¬Q) (hr : R) :
    Once (event :: log) p R := by
  refine ⟨fun _ => ?_, fun hn => absurd hr hn⟩
  rw [List.countP_cons_of_pos hp, h.2 hq]

theorem Once.le_one (h : Once log p Q) : log.countP p ≤ 1 := by
  by_cases hq : Q
  · exact Nat.le_of_eq (h.1 hq)
  · simp [h.2 hq]

theorem Once.iff_exists (h : Once log p Q) : Q ↔ ∃ event ∈ log, p event = true := by
  rw [← List.countP_pos_iff]
  by_cases hq : Q
  · simp [hq, h.1 hq]
  · simp [hq, h.2 hq]

end Once

end Transition
