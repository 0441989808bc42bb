import Minimk.Socket.Stream

namespace Minimk.Socket

open Abort Minimk.Runtime

theorem Buffer.take_store {buffer : Buffer} {offset : Nat} {items : List UInt8}
    (h : offset + items.length ≤ buffer.bytes.length) :
    (buffer.store offset items).bytes.take (offset + items.length) =
      buffer.bytes.take offset ++ items := by
  apply List.ext_getElem
  · simp [Buffer.store]
    omega
  · intro idx hleft hright
    have hidx : idx < offset + items.length := by
      simp only [List.length_take] at hleft
      omega
    simp only [Buffer.store, List.getElem_take, List.getElem_mapIdx]
    by_cases ho : offset ≤ idx
    · have hin : idx - offset < items.length := by omega
      rw [if_pos ho, List.getElem?_eq_getElem hin, Option.getD_some,
        List.getElem_append_right (by simp; omega)]
      simp
      congr 1
      omega
    · rw [if_neg ho, List.getElem_append_left (by simp; omega), List.getElem_take]

theorem transferallTurn_eq_ok {direction : Direction} {count total moved next : UInt64} {rv : Error}
    (h : transferallTurn direction count total rv moved = .ok (.ok next)) :
    rv = .eintr ∧ next = total ∨ rv = .success ∧ moved ≤ count - total ∧ next = total + moved := by
  cases direction with
  | read | write => exact Io.turn_eq_ok h

theorem transferallTurn_eq_error {direction : Direction} {count total moved : UInt64}
    {rv code : Error} (h : transferallTurn direction count total rv moved = .ok (.error code)) :
    rv = code ∧ rv ≠ .eintr ∧ rv ≠ .success := by
  cases direction with
  | read | write => exact Io.turn_eq_error h

namespace Party

variable {party next : Party} {direction : Direction} {buffer : Buffer} {rest : List Buffer}
  {total moved : UInt64} {rv : Error} {queue items : List UInt8} {returned : Syscall.Returned}

-- A call in progress is on the buffer in front and has not gone past its end.
def Ok (party : Party) : Prop :=
  party.point ≠ .idle → ∃ buffer rest, party.pending = buffer :: rest ∧ party.total ≤ buffer.count

-- What a party has after some calls and a part of the current one.
structure Reaches (party : Party) (finished : List Buffer) (buffer : Buffer) (rest : List Buffer)
    (total : Nat) : Prop where
  ok : party.Ok
  progress : party.progress = (finished.map Buffer.bytes).flatten ++ buffer.bytes.take total
  buffers : party.finished ++ party.pending = finished ++ buffer :: rest

theorem reaches_point {finished : List Buffer} {point : PartyPoint}
    (htotal : (⟨finished, buffer :: rest, point⟩ : Party).total ≤ buffer.count) :
    Reaches ⟨finished, buffer :: rest, point⟩ finished buffer rest
      (⟨finished, buffer :: rest, point⟩ : Party).total.toNat where
  ok := fun _ => ⟨buffer, rest, rfl, htotal⟩
  progress := rfl
  buffers := rfl

theorem loop_reaches (htotal : total ≤ buffer.count) :
    (party.loop buffer rest total).Reaches party.finished buffer rest total.toNat := by
  unfold loop
  split_ifs with hlt
  · exact reaches_point htotal
  · have hall : buffer.bytes.take total.toNat = buffer.bytes := by
      refine List.take_of_length_le ?_
      rw [buffer.length_eq]
      exact UInt64.le_iff_toNat_le.mp (UInt64.not_lt.mp hlt)
    refine ⟨fun h => absurd rfl h, ?_, by simp⟩
    rw [hall]
    simp [progress, Party.total]

theorem returned_reaches (htotal : total ≤ buffer.count)
    (h : party.returned direction buffer rest total rv moved = .ok next) :
    next.Reaches party.finished buffer rest
      (total.toNat + if rv = .success then moved.toNat else 0) := by
  obtain ⟨result, hturn, h⟩ := (bind_eq_ok_iff _ _ _).mp h
  cases result with
  | ok later =>
      obtain rfl : party.loop buffer rest later = next := by simpa using h
      rcases transferallTurn_eq_ok hturn with ⟨rfl, rfl⟩ | ⟨rfl, hmoved, rfl⟩
      · exact loop_reaches htotal
      · have hreach := @loop_reaches party buffer rest (total + moved)
          (Integer.add_le_of_room htotal hmoved)
        rw [Integer.toNat_add_of_room htotal hmoved] at hreach
        exact hreach
  | error code =>
      obtain ⟨rfl, heintr, hrv⟩ := transferallTurn_eq_error hturn
      obtain rfl : _ = next := by simpa using h
      rw [if_neg hrv]
      exact @reaches_point buffer rest party.finished (.stopped total rv) htotal

theorem nmoved_eq_zero (h : returned.rv = -1) : Syscall.nmoved returned = 0 := by
  simp [Syscall.nmoved, h]

theorem toNat_nmoved {amount : UInt64} (hpos : 0 < returned.rv)
    (hle : returned.rv.toNat ≤ (Syscall.clampCount amount).toNat) :
    (Syscall.nmoved returned).toNat = returned.rv.toNat := by
  have hclamp := (Syscall.clampCount amount).toNat_lt
  have hpos' : returned.rv > 0 := hpos
  rw [Syscall.nmoved, if_pos hpos', UInt64.toNat_ofNat']
  omega

theorem clampCount_le (amount : UInt64) : (Syscall.clampCount amount).toNat ≤ amount.toNat := by
  unfold Syscall.clampCount
  split_ifs with h
  · exact le_rfl
  · exact UInt64.le_iff_toNat_le.mp (UInt64.le_of_lt (UInt64.not_le.mp h))

theorem transferCall_eq (direction : Direction) (amount : UInt64) (returned : Syscall.Returned) :
    transferCall direction amount (fun _ => returned) =
      if amount ≤ 0 then (.einval, 0)
      else (if returned.rv = -1 then returned.errno
        else if direction = .read ∧ returned.rv = 0 then .eof else .success,
        Syscall.nmoved returned) := by
  cases direction with
  | read => simp [transferCall, Syscall.recv]
  | write => simp [transferCall, Syscall.send]

-- A system call reports what the kernel has moved: no more than it is asked for, and nothing when
-- it fails.
theorem transferCall_moves {amount : UInt64} (hallows : Allows direction amount queue returned)
    (h : transferCall direction amount (fun _ => returned) = (rv, moved)) :
    moved.toNat = returned.rv.toNat ∧ moved.toNat ≤ amount.toNat ∧ (rv ≠ .success → moved = 0) ∧
      (direction = .read → moved.toNat ≤ queue.length) := by
  have hclamp := clampCount_le amount
  rw [transferCall_eq] at h
  by_cases hzero : amount ≤ 0
  · obtain ⟨rfl, rfl⟩ : Error.einval = rv ∧ 0 = moved := by simpa [hzero] using h
    have hnone : returned.rv.toNat = 0 := by
      rw [UInt64.le_iff_toNat_le, UInt64.toNat_zero] at hzero
      rcases hallows with hfailed | ⟨hpos, hle, -⟩
      · omega
      · omega
    simp [hnone]
  · rw [if_neg hzero, Prod.mk.injEq] at h
    obtain ⟨hcode, rfl⟩ := h
    rcases hallows with hfailed | ⟨hpos, hle, hqueue⟩
    · rw [nmoved_eq_zero hfailed]
      simp [hfailed]
    · have hnat := toNat_nmoved hpos hle
      refine ⟨hnat, by omega, fun hrv => ?_, fun hread => ?_⟩
      · exfalso
        apply hrv
        rw [← hcode, if_neg (by omega), if_neg (by omega)]
      · have hroom := hqueue hread
        omega

-- The bytes that have moved are next to those that had moved before.
theorem take_moved (htotal : total ≤ buffer.count)
    (hmoved : moved.toNat ≤ (buffer.count - total).toNat)
    (hqueue : direction = .read → moved.toNat ≤ queue.length) :
    (movedBytes direction buffer total queue moved.toNat).length = moved.toNat ∧
      (bufferAfter direction buffer total
          (movedBytes direction buffer total queue moved.toNat)).bytes.take
            (total.toNat + moved.toNat) =
        buffer.bytes.take total.toNat ++ movedBytes direction buffer total queue moved.toNat := by
  have hlength := buffer.length_eq
  rw [UInt64.toNat_sub_of_le _ _ htotal] at hmoved
  rw [UInt64.le_iff_toNat_le] at htotal
  cases direction with
  | write =>
      refine ⟨?_, List.take_add⟩
      simp only [movedBytes, List.length_take, List.length_drop]
      omega
  | read =>
      have hroom := hqueue rfl
      have hmin : (queue.take moved.toNat).length = moved.toNat := by
        rw [List.length_take]
        omega
      refine ⟨hmin, ?_⟩
      have hstore := @Buffer.take_store buffer total.toNat (queue.take moved.toNat) (by omega)
      rw [hmin] at hstore
      exact hstore

-- What one step of a party does, with the bytes that it moves.
structure Moves (party : Party) (direction : Direction) (queue : List UInt8) (next : Party)
    (items : List UInt8) : Prop where
  ok : next.Ok
  progress : next.progress = party.progress ++ items
  counts : (next.finished ++ next.pending).map Buffer.count =
    (party.finished ++ party.pending).map Buffer.count
  kept : direction = .write → next.finished ++ next.pending = party.finished ++ party.pending
  queue : direction = .read → ∃ left, queue = items ++ left

theorem Reaches.moves {buffer' : Buffer} {total' : Nat} (hpending : party.pending = buffer :: rest)
    (h : next.Reaches party.finished buffer' rest total')
    (htake : buffer'.bytes.take total' = buffer.bytes.take party.total.toNat ++ items)
    (hcount : buffer'.count = buffer.count) (hkept : direction = .write → buffer' = buffer)
    (hqueue : direction = .read → ∃ left, queue = items ++ left) :
    Moves party direction queue next items where
  ok := h.ok
  progress := by
    rw [h.progress, htake, ← List.append_assoc]
    simp [Party.progress, hpending]
  counts := by
    rw [h.buffers, hpending]
    simp [hcount]
  kept := by
    intro hwrite
    rw [h.buffers, hpending, hkept hwrite]
  queue := hqueue

-- A step that moves no bytes.
theorem Reaches.moves_nil (hpending : party.pending = buffer :: rest)
    (h : next.Reaches party.finished buffer rest party.total.toNat) :
    Moves party direction queue next [] :=
  h.moves hpending (by simp) rfl (fun _ => rfl) fun _ => ⟨queue, rfl⟩

theorem called_moves (hpending : party.pending = buffer :: rest)
    (htotal : party.total ≤ buffer.count)
    (hallows : Allows direction (buffer.count - party.total) queue returned)
    (h : party.called direction buffer rest party.total queue returned = .ok (next, items)) :
    Moves party direction queue next items := by
  unfold called at h
  cases hcall : transferCall direction (buffer.count - party.total) fun _ => returned with
  | mk rv moved =>
      obtain ⟨hkernel, hmoved, hfailed, hqueue⟩ := transferCall_moves hallows hcall
      obtain ⟨hlength, htake⟩ := take_moved htotal hmoved hqueue
      simp only [hcall, ← hkernel] at h
      generalize hbytes : movedBytes direction buffer party.total queue moved.toNat = bytes at *
      generalize hstored : bufferAfter direction buffer party.total bytes = stored at *
      have hcount : stored.count = buffer.count := by
        cases direction <;> (subst hstored; rfl)
      have hkept : direction = .write → stored = buffer := by
        rintro rfl
        exact hstored.symm
      have hleft : direction = .read → ∃ left, queue = bytes ++ left := by
        rintro rfl
        exact ⟨queue.drop moved.toNat, by rw [← hbytes]; exact (List.take_append_drop _ _).symm⟩
      have hroom : party.total ≤ stored.count := hcount ▸ htotal
      by_cases hagain : rv = .eagain
      · simp only [transferTurn, hagain, ne_eq, not_true_eq_false, ↓reduceIte, pure_eq_ok,
          Except.ok.injEq, Prod.mk.injEq] at h
        obtain ⟨rfl, rfl⟩ := h
        have hnone : moved = 0 := hfailed (by simp [hagain])
        have hreach :=
          @reaches_point stored rest party.finished (.suspended party.total moved) hroom
        refine hreach.moves hpending ?_ hcount hkept hleft
        simp only [hnone, UInt64.toNat_zero, Nat.add_zero] at htake
        exact htake
      · simp only [transferTurn, hagain, ne_eq, not_false_eq_true, ↓reduceIte] at h
        obtain ⟨after, hreturned, h⟩ := (bind_eq_ok_iff _ _ _).mp h
        simp only [pure_eq_ok, Except.ok.injEq, Prod.mk.injEq] at h
        obtain ⟨rfl, rfl⟩ := h
        have hreach := returned_reaches hroom hreturned
        have htotals : party.total.toNat + (if rv = .success then moved.toNat else 0) =
            party.total.toNat + moved.toNat := by
          split_ifs with hrv
          · rfl
          · simp [hfailed hrv]
        rw [htotals] at hreach
        exact hreach.moves hpending htake hcount hkept hleft

theorem Ok.total_le (hok : party.Ok) (hpending : party.pending = buffer :: rest)
    (hpoint : party.point ≠ .idle) : party.total ≤ buffer.count := by
  obtain ⟨other, left, hother, hle⟩ := hok hpoint
  obtain ⟨rfl, rfl⟩ : buffer = other ∧ rest = left := by simpa [hpending] using hother
  exact hle

-- A party that goes on with its call without a system call.
theorem point_moves {point : PartyPoint} (hpending : party.pending = buffer :: rest)
    (htotal : party.total ≤ buffer.count)
    (hpoint : ({ party with point := point } : Party).total = party.total) :
    Moves party direction queue { party with point := point } [] := by
  have hreach := @reaches_point buffer rest party.finished point (by
    rw [← hpending]
    exact hpoint.symm ▸ htotal)
  rw [← hpending] at hreach
  have htotals : (⟨party.finished, party.pending, point⟩ : Party).total = party.total := hpoint
  rw [htotals] at hreach
  exact hreach.moves_nil hpending

-- A party whose call has failed before it has moved anything.
theorem returned_moves (hpending : party.pending = buffer :: rest)
    (htotal : party.total ≤ buffer.count) (hrv : rv ≠ .success)
    (h : party.returned direction buffer rest party.total rv moved = .ok next) :
    Moves party direction queue next [] := by
  have hreach := returned_reaches htotal h
  rw [if_neg hrv, Nat.add_zero] at hreach
  exact hreach.moves_nil hpending

theorem exec_moves {action : PartyAction} (hok : party.Ok)
    (h : party.exec direction queue action = some (.ok (next, items))) :
    Moves party direction queue next items := by
  unfold exec at h
  split at h
  · rename_i buffer rest hpending hpoint
    have htotal : (0 : UInt64).toNat = party.total.toNat := by simp [Party.total, hpoint]
    simp only [Option.some.injEq] at h
    obtain ⟨_, -, h⟩ := (bind_eq_ok_iff _ _ _).mp h
    simp only [pure_eq_ok, Except.ok.injEq, Prod.mk.injEq] at h
    obtain ⟨rfl, rfl⟩ := h
    have hreach := @loop_reaches party buffer rest 0 UInt64.zero_le
    rw [htotal] at hreach
    exact hreach.moves_nil hpending
  · rename_i buffer rest total rv hpending hpoint
    obtain rfl : party.total = total := by simp [Party.total, hpoint]
    have htotal := hok.total_le hpending (by simp [hpoint])
    split_ifs at h with hrv
    · simp only [Option.some.injEq] at h
      obtain ⟨after, hreturned, h⟩ := (bind_eq_ok_iff _ _ _).mp h
      simp only [pure_eq_ok, Except.ok.injEq, Prod.mk.injEq] at h
      obtain ⟨rfl, rfl⟩ := h
      exact returned_moves hpending htotal hrv hreturned
    · simp only [Option.some.injEq, Except.ok.injEq, Prod.mk.injEq] at h
      obtain ⟨rfl, rfl⟩ := h
      exact point_moves hpending htotal rfl
  · rename_i buffer rest total returned hpending hpoint
    obtain rfl : party.total = total := by simp [Party.total, hpoint]
    have htotal := hok.total_le hpending (by simp [hpoint])
    simp only [Option.ite_none_right_eq_some, Option.some.injEq] at h
    exact called_moves hpending htotal h.1 h.2
  · rename_i buffer rest total stored rv hpending hpoint
    obtain rfl : party.total = total := by simp [Party.total, hpoint]
    have htotal := hok.total_le hpending (by simp [hpoint])
    by_cases hrv : rv = .success
    · simp only [transferResumed, hrv, ne_eq, not_true_eq_false, ↓reduceIte, Option.some.injEq,
        Except.ok.injEq, Prod.mk.injEq] at h
      obtain ⟨rfl, rfl⟩ := h
      exact point_moves hpending htotal rfl
    · simp only [transferResumed, hrv, ne_eq, not_false_eq_true, ↓reduceIte, Option.some.injEq] at h
      obtain ⟨after, hreturned, h⟩ := (bind_eq_ok_iff _ _ _).mp h
      simp only [pure_eq_ok, Except.ok.injEq, Prod.mk.injEq] at h
      obtain ⟨rfl, rfl⟩ := h
      exact returned_moves hpending htotal hrv hreturned
  · cases h

end Party

namespace Transfer

open Party

variable {transfer next : Transfer} {event : Event} {log : List Event}
  {messages buffers : List Buffer}

-- A step is one of one of the parties, and the stream gains or loses what the party moves.
inductive Moved (transfer : Transfer) : Event → Transfer → Prop
  | sent {action : PartyAction} {moved : List UInt8} {sender : Party}
      (h : Moves transfer.sender .write transfer.queue sender moved) :
      Moved transfer ⟨.write, action, moved⟩
        { transfer with sender := sender, queue := transfer.queue ++ moved }
  | got {action : PartyAction} {moved left : List UInt8} {receiver : Party}
      (h : Moves transfer.receiver .read transfer.queue receiver moved)
      (hqueue : transfer.queue = moved ++ left) :
      Moved transfer ⟨.read, action, moved⟩ { transfer with receiver := receiver, queue := left }

theorem Step.moved (hs : Step transfer event next) (hsender : transfer.sender.Ok)
    (hreceiver : transfer.receiver.Ok) : Moved transfer event next := by
  obtain ⟨direction, action, moved⟩ := event
  cases direction with
  | write =>
      obtain ⟨result, hexec, h⟩ := Option.bind_eq_some_iff.mp hs
      simp only [Option.pure_def, Option.some.injEq] at h
      obtain ⟨⟨sender, bytes⟩, rfl, h⟩ := (bind_eq_ok_iff _ _ _).mp h
      obtain ⟨rfl, rfl⟩ : _ ∧ _ := by simpa using h
      exact .sent (exec_moves hsender hexec)
  | read =>
      obtain ⟨result, hexec, h⟩ := Option.bind_eq_some_iff.mp hs
      simp only [Option.pure_def, Option.some.injEq] at h
      obtain ⟨⟨receiver, bytes⟩, rfl, h⟩ := (bind_eq_ok_iff _ _ _).mp h
      obtain ⟨rfl, rfl⟩ : _ ∧ _ := by simpa using h
      have hmoves := exec_moves hreceiver hexec
      obtain ⟨left, hqueue⟩ := hmoves.queue rfl
      have hleft : transfer.queue.drop bytes.length = left := by rw [hqueue, List.drop_left]
      rw [hleft]
      exact .got hmoves hqueue

-- What the parties have is what has gone through the stream.
structure Invariant (messages buffers : List Buffer) (log : List Event) (transfer : Transfer) :
    Prop where
  sender : transfer.sender.Ok
  receiver : transfer.receiver.Ok
  stream : Fifo.Run (log.map Event.label) transfer.queue
  sent : transfer.sender.progress = Fifo.accepted (log.map Event.label)
  got : transfer.receiver.progress = Fifo.delivered (log.map Event.label)
  messages : transfer.sender.finished ++ transfer.sender.pending = messages
  counts : (transfer.receiver.finished ++ transfer.receiver.pending).map Buffer.count =
    buffers.map Buffer.count

theorem start_invariant : Invariant messages buffers [] (start messages buffers) where
  sender := fun h => absurd rfl h
  receiver := fun h => absurd rfl h
  stream := Transition.Run.start rfl
  sent := by simp [start, progress, total, Fifo.accepted]
  got := by simp [start, progress, total, Fifo.delivered]
  messages := rfl
  counts := rfl

theorem Moved.invariant (hm : Moved transfer event next)
    (h : Invariant messages buffers log transfer) :
    Invariant messages buffers (event :: log) next := by
  cases hm with
  | sent hmoves =>
      refine ⟨hmoves.ok, h.receiver, h.stream.snoc .put, ?_, h.got, ?_, h.counts⟩
      · rw [hmoves.progress, h.sent]
        rfl
      · rw [hmoves.kept rfl, h.messages]
  | got hmoves hqueue =>
      refine ⟨h.sender, hmoves.ok, h.stream.snoc (.get hqueue), h.sent, ?_, h.messages, ?_⟩
      · rw [hmoves.progress, h.got]
        rfl
      · rw [hmoves.counts, h.counts]

theorem Run.invariant (h : Run messages buffers log transfer) :
    Invariant messages buffers log transfer := by
  refine Transition.Run.invariant_from (P := Invariant messages buffers) ?_ ?_ h
  · exact start_invariant
  · exact fun _ _ _ _ _ ih hs => (hs.moved ih.sender ih.receiver).invariant ih

-- What a sender has got through is the beginning of what it has to send.
theorem progress_prefix (party : Party) :
    party.progress <+: ((party.finished ++ party.pending).map Buffer.bytes).flatten := by
  rw [List.map_append, List.flatten_append]
  refine (List.prefix_append_right_inj _).mpr ?_
  cases hpending : party.pending with
  | nil => simp
  | cons buffer rest =>
      simp only [List.head?_cons, Option.map_some, Option.getD_some, List.map_cons,
        List.flatten_cons]
      exact (List.take_prefix _ _).trans (List.prefix_append _ _)

-- A party without a pending buffer has nothing but its finished ones.
theorem progress_of_pending_nil {party : Party} (h : party.pending = []) :
    party.progress = (party.finished.map Buffer.bytes).flatten := by
  simp [progress, h]

theorem lengths_of_counts {first second : List Buffer}
    (h : first.map Buffer.count = second.map Buffer.count) :
    (first.map Buffer.bytes).map List.length = (second.map Buffer.bytes).map List.length := by
  have hlengths : ∀ list : List Buffer, (list.map Buffer.bytes).map List.length =
      (list.map Buffer.count).map UInt64.toNat := by
    intro list
    rw [List.map_map, List.map_map]
    exact List.map_congr_left fun buffer _ => buffer.length_eq
  rw [hlengths, hlengths, h]

theorem Run.delivers (hcounts : buffers.map Buffer.count = messages.map Buffer.count)
    (h : Run messages buffers log transfer) :
    transfer.receiver.progress ++ transfer.queue = Fifo.accepted (log.map Event.label) ∧
      Fifo.accepted (log.map Event.label) <+: (messages.map Buffer.bytes).flatten ∧
      (transfer.sender.pending = [] → transfer.receiver.pending = [] →
        transfer.receiver.finished.map Buffer.bytes = messages.map Buffer.bytes) := by
  have hi := Run.invariant h
  have hconserved : transfer.receiver.progress ++ transfer.queue =
      Fifo.accepted (log.map Event.label) := by
    rw [hi.got]
    exact hi.stream.conservation
  refine ⟨hconserved, ?_, ?_⟩
  · rw [← hi.sent, ← hi.messages]
    exact progress_prefix transfer.sender
  · intro hsent hgot
    have hmessages : transfer.sender.finished = messages := by
      simpa [hsent] using hi.messages
    have hfinished : transfer.receiver.finished.map Buffer.count = messages.map Buffer.count := by
      have hcounted := hi.counts
      rw [hgot, List.append_nil] at hcounted
      exact hcounted.trans hcounts
    have hlengths := lengths_of_counts hfinished
    rw [← hi.sent, progress_of_pending_nil hsent, progress_of_pending_nil hgot, hmessages]
      at hconserved
    have hempty : transfer.queue = [] := by
      have htotal := congrArg List.length hconserved
      rw [List.length_append, List.length_flatten, List.length_flatten, hlengths] at htotal
      exact List.eq_nil_of_length_eq_zero (by omega)
    rw [hempty, List.append_nil] at hconserved
    exact List.eq_iff_flatten_eq.mpr ⟨hconserved, hlengths⟩

-- Two messages and an empty one between them, sent and received in pieces.
def pieces : List Buffer :=
  [⟨0x1000, 3, [1, 2, 3], rfl⟩, ⟨0x2000, 0, [], rfl⟩, ⟨0x3000, 1, [4], rfl⟩]

def blanks : List Buffer :=
  [⟨0x4000, 3, [0, 0, 0], rfl⟩, ⟨0x5000, 0, [], rfl⟩, ⟨0x6000, 1, [0], rfl⟩]

def piecemeal : List (Direction × PartyAction) :=
  [(.read, .enter), (.write, .enter), (.read, .find .success), (.read, .call ⟨-1, .eagain⟩),
    (.write, .find .success), (.write, .call ⟨2, .success⟩), (.read, .resume .success),
    (.read, .call ⟨1, .success⟩), (.write, .find .success), (.write, .call ⟨-1, .eintr⟩),
    (.write, .find .success), (.write, .call ⟨1, .success⟩), (.write, .enter), (.write, .enter),
    (.write, .find .success), (.write, .call ⟨1, .success⟩), (.read, .find .success),
    (.read, .call ⟨2, .success⟩), (.read, .enter), (.read, .enter), (.read, .find .success),
    (.read, .call ⟨1, .success⟩)]

theorem Run.delivers_piecemeal :
    (Transition.outcome perform piecemeal (start pieces blanks)).2.receiver.finished.map
      Buffer.bytes = [[1, 2, 3], [], [4]] := by
  have hrun := @outcome_run pieces blanks piecemeal rfl
  obtain ⟨-, -, hall⟩ := Run.delivers (by rfl) hrun
  have hsent :
      (Transition.outcome perform piecemeal (start pieces blanks)).2.sender.pending.length = 0 := by
    rfl
  have hgot : (Transition.outcome perform piecemeal
      (start pieces blanks)).2.receiver.pending.length = 0 := rfl
  exact hall (List.eq_nil_of_length_eq_zero hsent) (List.eq_nil_of_length_eq_zero hgot)

end Transfer

end Minimk.Socket
