import Minimk.Socket.Call
import Minimk.Socket.Stream.Theorems

namespace Minimk.Socket

open Abort Minimk.Runtime SocketTable Transition

def Operation.transfer : Direction → UInt64 → UInt64 → Operation
  | .read => .recv
  | .write => .send

-- What recv(2) and send(2) may return for a number of bytes: a failure with its errno, or no more
-- bytes than that. Only recv returns zero.
def MayReturn (direction : Direction) (amount : UInt64) (returned : Syscall.Returned) : Prop :=
  (returned.rv = -1 ∧ returned.errno ≠ .success) ∨
    (0 ≤ returned.rv ∧ (direction = .write → 0 < returned.rv) ∧
      returned.rv.toNat ≤ amount.toNat)

instance (direction : Direction) (amount : UInt64) (returned : Syscall.Returned) :
    Decidable (MayReturn direction amount returned) :=
  inferInstanceAs (Decidable (_ ∨ _))

-- The replies that a call of recv or send may get: of the system call and of the suspension.
def Next.TransferAnswers (next : Next) (reply : Reply) : Prop :=
  match next with
  | .call (.on _ (.transferCall direction count)) =>
      ∃ returned, MayReturn direction (Syscall.clampCount count) returned ∧
        (reply.rv, reply.amount) = transferCall direction count fun _ => returned
  | .call (.on _ (.transferSuspend direction _ _)) =>
      ∃ revents, reply.rv = Coroutine.ioResult revents direction.events
  | _ => True

-- The caller can rely on the length after the return.
def LengthKept (rv : Error) (length count : UInt64) : Prop :=
  (rv = .success → 0 < length ∧ length ≤ count) ∧ (rv ≠ .success → length = 0) ∧ rv ≠ .eagain

variable {table : SocketTable} {direction : Direction} {sock count length previous : UInt64}
  {next after : Next} {rv : Error} {amount : Option UInt64} {turns : List CallTurn}
  {returned : CallReturn} {result : Syscall.Returned}

theorem lengthKept_failed (hrv : rv ≠ .success) (hagain : rv ≠ .eagain) : LengthKept rv 0 count :=
  ⟨fun h => absurd h hrv, fun _ => rfl, hagain⟩

theorem nmoved_bounds (hpos : 0 < result.rv)
    (hle : result.rv.toNat ≤ (Syscall.clampCount count).toNat) :
    0 < Syscall.nmoved result ∧ Syscall.nmoved result ≤ count := by
  have hmoved := Party.toNat_nmoved hpos hle
  have hclamp := Party.clampCount_le count
  rw [UInt64.lt_iff_toNat_lt, UInt64.le_iff_toNat_le, hmoved]
  show 0 < _ ∧ _
  omega

-- The wrappers of the system calls leave the length as promised, unless they report EAGAIN.
theorem transferCall_lengthKept (h : MayReturn direction (Syscall.clampCount count) result)
    (hcall : (rv, length) = transferCall direction count fun _ => result)
    (hagain : rv ≠ .eagain) : LengthKept rv length count := by
  rw [Party.transferCall_eq] at hcall
  by_cases hcount : count ≤ 0
  · obtain ⟨rfl, rfl⟩ : rv = .einval ∧ length = 0 := by simpa [hcount] using hcall
    exact lengthKept_failed (by simp) (by simp)
  · rw [if_neg hcount, Prod.mk.injEq] at hcall
    obtain ⟨hcode, rfl⟩ := hcall
    rcases h with ⟨hfailed, herrno⟩ | ⟨hnonneg, hwrite, hle⟩
    · rw [if_pos hfailed] at hcode
      rw [Party.nmoved_eq_zero hfailed]
      exact lengthKept_failed (by rwa [hcode]) hagain
    · rw [if_neg (by omega)] at hcode
      rcases Int.lt_or_eq_of_le hnonneg with hpos | hzero
      · rw [if_neg (by omega)] at hcode
        have hbounds := nmoved_bounds hpos hle
        exact ⟨fun _ => hbounds, fun h => absurd hcode h, hagain⟩
      · -- only recv gets here, at the end of the stream
        have hread : direction = .read := by
          cases direction with
          | read => rfl
          | write =>
              have hpos := hwrite rfl
              omega
        rw [if_pos ⟨hread, hzero.symm⟩] at hcode
        have hnone : Syscall.nmoved result = 0 := by simp [Syscall.nmoved, ← hzero]
        rw [hnone, hcode]
        exact lengthKept_failed (by simp) (by simp)

-- A system call that reports EAGAIN has stored nothing.
theorem transferCall_again (hagain : rv = .eagain)
    (hcall : (rv, length) = transferCall direction count fun _ => result) : length = 0 := by
  rw [Party.transferCall_eq] at hcall
  split_ifs at hcall with hcount hfailed heof
  · exact (Prod.mk.inj hcall).2
  · obtain ⟨-, rfl⟩ := Prod.mk.inj hcall
    exact Party.nmoved_eq_zero hfailed
  · obtain ⟨hcode, -⟩ := Prod.mk.inj hcall
    exact absurd (hcode.symm.trans hagain) (by simp)
  · obtain ⟨hcode, -⟩ := Prod.mk.inj hcall
    exact absurd (hcode.symm.trans hagain) (by simp)

theorem ioResult_ne_eagain (revents events : Int16) :
    Coroutine.ioResult revents events ≠ .eagain := by
  unfold Coroutine.ioResult
  split_ifs <;> simp

-- Between its first call and its return. The length is 0 while it is suspended.
def Next.Transfers (direction : Direction) (count : UInt64) : Next → Prop
  | .call (.on _ point) =>
      point = .transferCall direction count ∨ point = .transferSuspend direction count 0
  | .done rv amount => ∃ length, amount = some length ∧ LengthKept rv length count
  | _ => False

theorem Next.Step.transfers (h : next.Transfers direction count)
    (hs : Next.Step next returned after) (hanswers : next.TransferAnswers returned.reply) :
    after.Transfers direction count := by
  cases next with
  | done rv amount => exact absurd hs Next.not_step_done
  | issued info => exact h.elim
  | call frame =>
      cases frame with
      | idle => exact h.elim
      | createSocket domain type protocol => exact h.elim
      | opened fd point => exact h.elim
      | on info point =>
          obtain rfl := hs.on
          rcases h with rfl | rfl
          · obtain ⟨result, hmoves, hcall⟩ := hanswers
            by_cases hagain : returned.reply.rv = .eagain
            · have hnone := transferCall_again hagain hcall
              simp [Point.resume, transferTurn, hagain, hnone, Next.Transfers]
            · have hkept := transferCall_lengthKept hmoves hcall hagain
              simpa [Point.resume, transferTurn, hagain, Next.Transfers] using hkept
          · obtain ⟨revents, hrv⟩ := hanswers
            by_cases hsuccess : returned.reply.rv = .success
            · simp [Point.resume, transferResumed, hsuccess, Next.Transfers]
            · have hagain : returned.reply.rv ≠ .eagain := by
                rw [hrv]
                exact ioResult_ne_eagain revents direction.events
              have hkept := @lengthKept_failed count _ hsuccess hagain
              simpa [Point.resume, transferResumed, hsuccess, Next.Transfers] using hkept

theorem Next.Path.transfers (h : Next.Path next turns after)
    (hanswers : ∀ turn ∈ turns, turn.before.TransferAnswers turn.label.reply)
    (hnext : next.Transfers direction count) : after.Transfers direction count := by
  refine Path.invariant (P := Next.Transfers direction count) ?_ h hanswers hnext
  intro state turn later hstate hanswer hs
  obtain ⟨rfl, rfl, hs⟩ := hs
  exact hs.transfers hstate hanswer

theorem transfer_begins : (Operation.transfer direction sock count).Begins table next ↔
    next = if table.Finds sock then .call (.on (indexOf sock) (.transferCall direction count))
      else .done .ebadf none := by
  cases direction with
  | read => exact onFound_begins
  | write => exact onFound_begins

-- The length is as promised whenever the handle is found; otherwise nothing is stored.
theorem transfer_lengthKept_iff
    (hbegins : (Operation.transfer direction sock count).Begins table next)
    (hpath : Next.Path next turns (.done rv amount))
    (hanswers : ∀ turn ∈ turns, turn.before.TransferAnswers turn.label.reply) :
    LengthKept rv (amount.getD previous) count ↔ table.Finds sock ∨ previous = 0 := by
  have hnext := transfer_begins.mp hbegins
  by_cases hfinds : table.Finds sock
  · rw [if_pos hfinds] at hnext
    subst hnext
    obtain ⟨length, rfl, hkept⟩ := hpath.transfers hanswers (.inl rfl)
    exact iff_of_true hkept (.inl hfinds)
  · rw [if_neg hfinds] at hnext
    subst hnext
    obtain ⟨rfl, rfl⟩ : rv = .ebadf ∧ amount = none := by simpa using hpath.of_done
    constructor
    · intro hkept
      exact .inr (hkept.2.1 (by simp))
    · rintro (hfound | rfl)
      · exact absurd hfound hfinds
      · exact lengthKept_failed (by simp) (by simp)

-- A recv of four bytes waits once, and then it gets two or its deadline has passed.
theorem transfer_lengthKept_iff_secondRead :
    LengthKept .success ((some 2).getD 7) 4 ∧ LengthKept .etimedout ((some 0).getD 7) 4 := by
  have hbegins := (@transfer_begins firstSocket .read 0x100000000000000 4 _).mpr rfl
  rw [if_pos firstSocket_finds] at hbegins
  have hcalled : Next.Path (.call (.on (indexOf 0x100000000000000) (.transferCall .read 4))) []
      (.call (.on (indexOf 0x100000000000000) (.transferCall .read 4))) := .nil
  have hasked := hcalled.turn firstSocket ⟨.eagain, -1, 0, .success⟩
  constructor
  · have hwoken := Next.Path.turn firstSocket ⟨.success, -1, 0, .success⟩ hasked
    have hpath := Next.Path.turn firstSocket ⟨.success, -1, 2, .success⟩ hwoken
    refine (transfer_lengthKept_iff hbegins hpath ?_).mpr (.inl firstSocket_finds)
    intro turn hm
    simp only [List.mem_cons, List.not_mem_nil, or_false] at hm
    rcases hm with rfl | rfl | rfl
    · exact ⟨⟨2, .success⟩, by decide, rfl⟩
    · exact ⟨POLLIN, by decide⟩
    · exact ⟨⟨-1, .eagain⟩, by decide, rfl⟩
  · have hpath := Next.Path.turn firstSocket ⟨.etimedout, -1, 0, .success⟩ hasked
    refine (transfer_lengthKept_iff hbegins hpath ?_).mpr (.inl firstSocket_finds)
    intro turn hm
    simp only [List.mem_cons, List.not_mem_nil, or_false] at hm
    rcases hm with rfl | rfl
    · exact ⟨0, by decide⟩
    · exact ⟨⟨-1, .eagain⟩, by decide, rfl⟩

-- A recv on the invalid handle leaves the counter of the caller alone.
theorem invalid_handle_keeps_length :
    ¬∀ direction table sock count previous next turns rv amount,
      (Operation.transfer direction sock count).Begins table next →
      Next.Path next turns (.done rv amount) →
      (∀ turn ∈ turns, turn.before.TransferAnswers turn.label.reply) →
      LengthKept rv (amount.getD previous) count := by
  intro hclaim
  have hmissing : ¬SocketTable.zero.Finds 0 := by decide
  have hbegins := (@transfer_begins .zero .read 0 16 _).mpr rfl
  rw [if_neg hmissing] at hbegins
  have hkept := hclaim .read .zero 0 16 7 _ [] .ebadf none hbegins .nil (by simp)
  exact absurd (hkept.2.1 (by decide)) (by decide)

end Minimk.Socket
