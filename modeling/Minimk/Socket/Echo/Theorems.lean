import Minimk.Socket.Echo
import Minimk.Socket.Stream.Theorems

namespace Minimk.Socket

open Abort Minimk.Runtime

theorem Buffer.store_nil (buffer : Buffer) (offset : Nat) : buffer.store offset [] = buffer := by
  obtain ⟨base, count, bytes, hlength⟩ := buffer
  have hbytes : (bytes.mapIdx fun idx byte =>
      if offset ≤ idx then (([] : List UInt8)[idx - offset]?).getD byte else byte) = bytes := by
    apply List.ext_getElem
    · rw [List.length_mapIdx]
    · intro i _ _
      simp
  simp only [store, hbytes]

theorem Buffer.first_count {buffer : Buffer} {count : UInt64} (h : count ≤ buffer.count) :
    (buffer.first count).count = count := if_pos h

namespace Party

variable {party next : Party} {buffer message : Buffer} {rest : List Buffer}
  {queue items : List UInt8}
  {action : PartyAction} {returned : Syscall.Returned}

-- The end of the stream ends the call with an error, and no byte has moved.
theorem called_eof (hpending : party.pending = buffer :: rest) (htotal : party.total ≤ buffer.count)
    (hrv : returned.rv = 0)
    (h : party.called .read buffer rest party.total queue returned = .ok (next, items)) :
    Moves party .read queue next items := by
  have hmoved : Syscall.nmoved returned = 0 := by simp [Syscall.nmoved, hrv]
  have hnone : returned.rv.toNat = 0 := by simp [hrv]
  have hcall := transferCall_eq .read (buffer.count - party.total) returned
  simp only [hrv, hmoved, reduceCtorEq, true_and, ↓reduceIte] at hcall
  obtain ⟨rv, hne, hagain, hcode⟩ : ∃ rv, rv ≠ Error.success ∧ rv ≠ .eagain ∧
      transferCall .read (buffer.count - party.total) (fun _ => returned) = (rv, 0) := by
    by_cases hzero : buffer.count - party.total ≤ 0
    · exact ⟨.einval, by decide, by decide, by simpa [hzero] using hcall⟩
    · exact ⟨.eof, by decide, by decide, by simpa [hzero] using hcall⟩
  simp only [called, hcode, transferTurn, hagain, ne_eq, not_false_eq_true, ↓reduceIte, movedBytes,
    bufferAfter, hnone, List.take_zero, Buffer.store_nil] at h
  obtain ⟨after, hreturned, h⟩ := (bind_eq_ok_iff _ _ _).mp h
  simp only [pure_eq_ok, Except.ok.injEq, Prod.mk.injEq] at h
  obtain ⟨rfl, rfl⟩ := h
  exact returned_moves hpending htotal hne hreturned

theorem recvall_moves (hok : party.Ok)
    (h : party.recvall queue action = some (.ok (next, items))) :
    Moves party .read queue next items := by
  unfold recvall at h
  split at h
  · rename_i buffer rest total returned hpending hpoint
    split_ifs at h with hrv
    · obtain rfl : party.total = total := by simp [Party.total, hpoint]
      have htotal := hok.total_le hpending (by simp [hpoint])
      exact called_eof hpending htotal hrv (Option.some.inj h)
    · exact exec_moves hok h
  · exact exec_moves hok h

-- One call of sendall, as far as it has got.
structure Sending (party : Party) (message : Buffer) : Prop where
  ok : party.Ok
  finished : party.finished = []
  pending : party.pending = [message]

-- One call of recvall for some bytes.
structure Receiving (party : Party) (count : UInt64) : Prop where
  ok : party.Ok
  finished : party.finished = []
  pending : ∃ buffer, party.pending = [buffer] ∧ buffer.count = count

theorem sending_start (message : Buffer) : Sending ⟨[], [message], .idle⟩ message :=
  ⟨fun h => absurd rfl h, rfl, rfl⟩

theorem receiving_start (buffer : Buffer) : Receiving ⟨[], [buffer], .idle⟩ buffer.count :=
  ⟨fun h => absurd rfl h, rfl, buffer, rfl, rfl⟩

theorem progress_start (buffer : Buffer) : (⟨[], [buffer], .idle⟩ : Party).progress = [] := by
  simp [progress, total]

-- A step of sendall sends the next bytes of the message, and the last one completes it.
theorem Sending.step (h : party.Sending message)
    (hexec : party.exec .write queue action = some (.ok (next, items))) :
    next.progress = party.progress ++ items ∧
      (next.finished = [] ∧ next.Sending message ∨
        next.finished = [message] ∧ next.progress = message.bytes) := by
  have hmoves := exec_moves h.ok hexec
  have hkept := hmoves.kept rfl
  rw [h.finished, h.pending, List.nil_append] at hkept
  refine ⟨hmoves.progress, ?_⟩
  cases hfinished : next.finished with
  | nil =>
      rw [hfinished, List.nil_append] at hkept
      exact .inl ⟨rfl, hmoves.ok, hfinished, hkept⟩
  | cons first others =>
      rw [hfinished, List.cons_append, List.cons.injEq, List.append_eq_nil_iff] at hkept
      obtain ⟨rfl, rfl, hpending⟩ := hkept
      refine .inr ⟨rfl, ?_⟩
      rw [Transfer.progress_of_pending_nil hpending, hfinished]
      simp

-- A step of recvall takes the next bytes of the stream, and the last one fills the buffer.
theorem Receiving.step {count : UInt64} (h : party.Receiving count)
    (hexec : party.recvall queue action = some (.ok (next, items))) :
    next.progress = party.progress ++ items ∧ (∃ left, queue = items ++ left) ∧
      (next.finished = [] ∧ next.Receiving count ∨
        ∃ buffer, next.finished = [buffer] ∧ buffer.count = count ∧
          next.progress = buffer.bytes) := by
  have hmoves := recvall_moves h.ok hexec
  obtain ⟨old, hpending, hcount⟩ := h.pending
  have hcounts := hmoves.counts
  simp only [h.finished, hpending, List.nil_append, List.map_cons, List.map_nil, hcount,
    List.map_append] at hcounts
  refine ⟨hmoves.progress, hmoves.queue rfl, ?_⟩
  cases hfinished : next.finished with
  | nil =>
      rw [hfinished, List.map_nil, List.nil_append, List.map_eq_singleton_iff] at hcounts
      obtain ⟨buffer, hpending, hcount⟩ := hcounts
      exact .inl ⟨rfl, hmoves.ok, hfinished, buffer, hpending, hcount⟩
  | cons first others =>
      rw [hfinished, List.map_cons, List.cons_append, List.cons.injEq, List.append_eq_nil_iff,
        List.map_eq_nil_iff, List.map_eq_nil_iff] at hcounts
      obtain ⟨hcount, rfl, hpending⟩ := hcounts
      refine .inr ⟨first, rfl, hcount, ?_⟩
      rw [Transfer.progress_of_pending_nil hpending, hfinished]
      simp

end Party

namespace EchoServer

variable {server next : EchoServer} {requests held moved : List UInt8} {action : PartyAction}
  {direction : Direction}

-- The bytes that the server has read and has not sent back yet. Behind its loop some may be left.
def Holds (server : EchoServer) (held : List UInt8) : Prop :=
  match server.point with
  | .find | .call | .suspended _ => held = []
  | .sending party => ∃ message, party.Sending message ∧ message.bytes = party.progress ++ held
  | .stopped _ => True
  | .aborted => False

-- A step moves bytes from the requests into the server, or from there to the replies.
inductive Passes (requests held : List UInt8) : Direction → List UInt8 → List UInt8 → Prop
  | took {moved left : List UInt8} (hqueue : requests = moved ++ left) :
      Passes requests held .read moved (held ++ moved)
  | gave {moved left : List UInt8} (hheld : held = moved ++ left) :
      Passes requests held .write moved left

theorem Passes.nothing : Passes requests held .read [] held := by
  have h : Passes requests held .read [] (held ++ []) := .took rfl
  rwa [List.append_nil] at h

theorem received_of_ne {rv : Error} {nread : UInt64} (hrv : rv ≠ .success) :
    (server.received rv nread).Holds held := by
  simp only [received, if_pos hrv, Holds]

-- What recv has read is at the beginning of the buffer.
theorem received_holds {nread : UInt64} (hpos : 0 < nread) (hle : nread ≤ server.buffer.count)
    (hbytes : moved.length = nread.toNat) :
    (EchoServer.received { server with buffer := server.buffer.store 0 moved } .success
      nread).Holds moved := by
  have hgt : nread > 0 := hpos
  have hlength := server.buffer.length_eq
  have hroom : 0 + moved.length ≤ server.buffer.bytes.length := by
    rw [UInt64.le_iff_toNat_le] at hle
    omega
  have hstore := @Buffer.take_store server.buffer 0 moved hroom
  rw [Nat.zero_add, List.take_zero, List.nil_append, hbytes] at hstore
  simp only [received, ne_eq, not_true_eq_false, ↓reduceIte, hgt, Holds]
  refine ⟨_, Party.sending_start _, ?_⟩
  rw [Party.progress_start, List.nil_append]
  exact hstore

-- recv fails and reads nothing, or it reports the part of what is there that it has read.
theorem recv_cases {count : UInt64} {returned : Syscall.Returned}
    (hanswers : Answers count requests returned) :
    ∃ rv nread, Syscall.recv count (fun _ => returned) = (rv, nread) ∧
      nread.toNat = returned.rv.toNat ∧
      (rv ≠ .success ∧ nread = 0 ∨
        rv = .success ∧ 0 < nread ∧ nread ≤ count ∧ nread.toNat ≤ requests.length) := by
  have hcall := Party.transferCall_eq .read count returned
  change Syscall.recv count (fun _ => returned) = _ at hcall
  have hclamp := Party.clampCount_le count
  by_cases hzero : count ≤ 0
  · refine ⟨.einval, 0, by rw [hcall, if_pos hzero], ?_, .inl ⟨by decide, rfl⟩⟩
    rw [UInt64.le_iff_toNat_le, UInt64.toNat_zero] at hzero
    rw [UInt64.toNat_zero]
    rcases hanswers with heof | ⟨hfailed, -⟩ | ⟨hpos, hle, -⟩
    · omega
    · omega
    · omega
  · rw [if_neg hzero] at hcall
    refine ⟨_, _, hcall, ?_⟩
    rcases hanswers with heof | ⟨hfailed, herrno⟩ | ⟨hpos, hle, hqueue⟩
    · have hnone : Syscall.nmoved returned = 0 := by simp [Syscall.nmoved, heof]
      simp [hnone, heof]
    · rw [Party.nmoved_eq_zero hfailed]
      simp [hfailed, herrno]
    · have hnat := Party.toNat_nmoved hpos hle
      refine ⟨hnat, .inr ⟨?_, ?_, ?_, by omega⟩⟩
      · rw [if_neg (by omega), if_neg (by omega)]
      · rw [UInt64.lt_iff_toNat_lt, hnat, UInt64.toNat_zero]
        omega
      · rw [UInt64.le_iff_toNat_le, hnat]
        omega

theorem called_holds {returned : Syscall.Returned}
    (hanswers : Answers server.buffer.count requests returned) :
    (server.called requests returned).1.Holds (server.called requests returned).2 ∧
      ∃ left, requests = (server.called requests returned).2 ++ left := by
  obtain ⟨rv, nread, hrecv, hkernel, ⟨hrv, rfl⟩ | ⟨rfl, hpos, hle, hqueue⟩⟩ := recv_cases hanswers
  · rw [UInt64.toNat_zero] at hkernel
    by_cases hagain : rv = .eagain
    · simp [called, hrecv, ← hkernel, transferTurn, hagain, Holds]
    · simp only [called, hrecv, ← hkernel, transferTurn, ne_eq, hagain, not_false_eq_true,
        ↓reduceIte, List.take_zero, List.nil_append, exists_eq', and_true]
      exact received_of_ne hrv
  · have hlength : (requests.take nread.toNat).length = nread.toNat := by
      rw [List.length_take]
      exact Nat.min_eq_left hqueue
    simp only [called, hrecv, ← hkernel, transferTurn, ne_eq, reduceCtorEq, not_false_eq_true,
      ↓reduceIte]
    exact ⟨received_holds hpos hle hlength, _, (List.take_append_drop _ _).symm⟩

theorem sent_holds {message : Buffer} {party after : Party} (hparty : party.Sending message)
    (hbytes : message.bytes = party.progress ++ held)
    (hexec : party.exec .write [] action = some (.ok (after, moved))) :
    ∃ left, held = moved ++ left ∧ (server.sent after).Holds left := by
  obtain ⟨hprogress, hafter⟩ := hparty.step hexec
  have hprefix : after.progress <+: message.bytes := by
    rcases hafter with ⟨-, hsending⟩ | ⟨-, hall⟩
    · have hpre := Transfer.progress_prefix after
      simpa [hsending.finished, hsending.pending] using hpre
    · rw [hall]
  obtain ⟨left, hleft⟩ := hprefix
  have hheld : held = moved ++ left := by
    rw [← hleft, hprogress, List.append_assoc] at hbytes
    exact (List.append_cancel_left hbytes).symm
  refine ⟨left, hheld, ?_⟩
  unfold sent
  split
  · trivial
  · rename_i hfinished _
    rcases hafter with ⟨-, hsending⟩ | ⟨hall, -⟩
    · exact ⟨message, hsending, hleft.symm⟩
    · rw [hall] at hfinished
      cases hfinished
  · rename_i hfinished _
    rcases hafter with ⟨hnil, -⟩ | ⟨-, hall⟩
    · rw [hnil] at hfinished
      cases hfinished
    · rw [hall] at hleft
      exact List.append_right_eq_self.mp hleft

theorem exec_holds (h : server.Holds held)
    (hexec : server.exec requests action = some (.ok (next, direction, moved))) :
    ∃ held', Passes requests held direction moved held' ∧ next.Holds held' := by
  unfold exec at hexec
  split at hexec
  · rename_i rv hpoint
    have hheld : held = [] := by simpa [Holds, hpoint] using h
    subst hheld
    split_ifs at hexec with hrv
    · simp only [Option.some.injEq, Except.ok.injEq, Prod.mk.injEq] at hexec
      obtain ⟨rfl, rfl, rfl⟩ := hexec
      exact ⟨[], .nothing, received_of_ne hrv⟩
    · simp only [Option.some.injEq, Except.ok.injEq, Prod.mk.injEq] at hexec
      obtain ⟨rfl, rfl, rfl⟩ := hexec
      exact ⟨[], .nothing, rfl⟩
  · rename_i returned hpoint
    have hheld : held = [] := by simpa [Holds, hpoint] using h
    subst hheld
    split_ifs at hexec with hanswers
    simp only [Option.some.injEq, Except.ok.injEq, Prod.mk.injEq] at hexec
    obtain ⟨rfl, rfl, rfl⟩ := hexec
    obtain ⟨hholds, left, hleft⟩ := called_holds hanswers
    exact ⟨_, .took hleft, hholds⟩
  · rename_i nread rv hpoint
    have hheld : held = [] := by simpa [Holds, hpoint] using h
    subst hheld
    by_cases hrv : rv = .success
    · simp only [transferResumed, hrv, ne_eq, not_true_eq_false, ↓reduceIte, Option.some.injEq,
        Except.ok.injEq, Prod.mk.injEq] at hexec
      obtain ⟨rfl, rfl, rfl⟩ := hexec
      exact ⟨[], .nothing, rfl⟩
    · simp only [transferResumed, hrv, ne_eq, not_false_eq_true, ↓reduceIte, Option.some.injEq,
        Except.ok.injEq, Prod.mk.injEq] at hexec
      obtain ⟨rfl, rfl, rfl⟩ := hexec
      exact ⟨[], .nothing, received_of_ne hrv⟩
  · rename_i party hpoint
    obtain ⟨message, hsending, hbytes⟩ : ∃ message, party.Sending message ∧
        message.bytes = party.progress ++ held := by simpa [Holds, hpoint] using h
    obtain ⟨result, hparty, hexec⟩ := Option.bind_eq_some_iff.mp hexec
    simp only [Option.pure_def, Option.some.injEq] at hexec
    obtain ⟨⟨after, items⟩, rfl, hexec⟩ := (bind_eq_ok_iff _ _ _).mp hexec
    obtain ⟨rfl, rfl, rfl⟩ : server.sent after = next ∧ .write = direction ∧ items = moved := by
      simpa using hexec
    obtain ⟨left, hheld, hholds⟩ := sent_holds hsending hbytes hparty
    exact ⟨left, .gave hheld, hholds⟩
  · cases hexec

end EchoServer

namespace EchoClient

variable {client next : EchoClient} {message : Buffer} {rest : List Buffer} {party after : Party}
  {accepted delivered replies moved : List UInt8} {action : PartyAction} {direction : Direction}

def echoedBytes (client : EchoClient) : List UInt8 :=
  (client.echoed.map Buffer.bytes).flatten

-- What the client has handed to the connection and taken from it, at each point of its loop.
def Stands (client : EchoClient) (accepted delivered : List UInt8) : Prop :=
  match client.point with
  | .sending party => ∃ message rest, client.messages = message :: rest ∧ party.Sending message ∧
      accepted = client.echoedBytes ++ party.progress ∧ delivered = client.echoedBytes
  | .receiving party => ∃ message rest, client.messages = message :: rest ∧
      party.Receiving message.count ∧ accepted = client.echoedBytes ++ message.bytes ∧
      delivered = client.echoedBytes ++ party.progress
  | .failed _ => True
  | .mismatch => False
  | .passed => client.messages = [] ∧ accepted = client.echoedBytes ∧
      delivered = client.echoedBytes

theorem loop_stands (client : EchoClient) (echoed messages : List Buffer) :
    (client.loop echoed messages).Stands (echoed.map Buffer.bytes).flatten
      (echoed.map Buffer.bytes).flatten := by
  cases messages with
  | nil => exact ⟨rfl, rfl, rfl⟩
  | cons message rest =>
      refine ⟨message, rest, rfl, Party.sending_start message, ?_, rfl⟩
      rw [Party.progress_start, List.append_nil]
      rfl

theorem sent_stands (hmessages : client.messages = message :: rest)
    (hfits : message.count ≤ client.buffer.count) (hparty : party.Sending message)
    (haccepted : accepted = client.echoedBytes ++ party.progress)
    (hdelivered : delivered = client.echoedBytes)
    (hexec : party.exec .write [] action = some (.ok (after, moved))) :
    (client.sent message after).Stands (accepted ++ moved) delivered := by
  obtain ⟨hprogress, hafter⟩ := hparty.step hexec
  have hsent : accepted ++ moved = client.echoedBytes ++ after.progress := by
    rw [haccepted, List.append_assoc, hprogress]
  unfold sent
  split
  · trivial
  · rename_i hfinished _
    rcases hafter with ⟨-, hsending⟩ | ⟨hall, -⟩
    · exact ⟨message, rest, hmessages, hsending, hsent, hdelivered⟩
    · rw [hall] at hfinished
      cases hfinished
  · rename_i hfinished _
    rcases hafter with ⟨hnil, -⟩ | ⟨-, hall⟩
    · rw [hnil] at hfinished
      cases hfinished
    · have hstart := Party.receiving_start (client.buffer.first message.count)
      rw [Buffer.first_count hfits] at hstart
      refine ⟨message, rest, hmessages, hstart, hall ▸ hsent, ?_⟩
      rw [Party.progress_start, List.append_nil]
      exact hdelivered

-- As many bytes as the message has, from a stream that carries the message, are the message.
theorem eq_of_carried {buffer : Buffer} {further : List UInt8}
    (hcount : buffer.count = message.count) (h : buffer.bytes ++ further = message.bytes) :
    buffer.bytes = message.bytes := by
  have hlengths : buffer.bytes.length = message.bytes.length := by
    rw [buffer.length_eq, message.length_eq, hcount]
  exact (List.append_inj (h.trans (List.append_nil _).symm) hlengths).1

theorem got_stands {further : List UInt8} (hmessages : client.messages = message :: rest)
    (hparty : party.Receiving message.count)
    (haccepted : accepted = client.echoedBytes ++ message.bytes)
    (hdelivered : delivered = client.echoedBytes ++ party.progress)
    (hcarried : delivered ++ (replies ++ further) = accepted)
    (hexec : party.recvall replies action = some (.ok (after, moved))) :
    (∃ left, replies = moved ++ left) ∧
      (client.got message rest after).Stands accepted (delivered ++ moved) := by
  obtain ⟨hprogress, ⟨left, hqueue⟩, hafter⟩ := hparty.step hexec
  have hgot : delivered ++ moved = client.echoedBytes ++ after.progress := by
    rw [hdelivered, List.append_assoc, hprogress]
  refine ⟨⟨left, hqueue⟩, ?_⟩
  unfold got
  split
  · trivial
  · rename_i hfinished _
    rcases hafter with ⟨-, hreceiving⟩ | ⟨buffer, hall, -⟩
    · exact ⟨message, rest, hmessages, hreceiving, haccepted, hgot⟩
    · rw [hall] at hfinished
      cases hfinished
  · rename_i first others hfinished _
    rcases hafter with ⟨hnil, -⟩ | ⟨buffer, hall, hcount, hbytes⟩
    · rw [hnil] at hfinished
      cases hfinished
    · obtain ⟨rfl, -⟩ : buffer = first ∧ [] = others := by simpa [hall] using hfinished
      have hwhole : buffer.bytes ++ (left ++ further) = message.bytes := by
        rw [hqueue, haccepted, List.append_assoc, ← List.append_assoc, hgot, hbytes,
          List.append_assoc] at hcarried
        exact List.append_cancel_left hcarried
      have hsame := eq_of_carried hcount hwhole
      rw [if_neg (not_not.mpr hsame), hgot, hbytes, haccepted, hsame]
      have hstands := loop_stands client (client.echoed ++ [message]) rest
      simpa [echoedBytes] using hstands

-- The loop over the messages goes through all of them, with the same buffer.
structure Keeps (client next : EchoClient) : Prop where
  buffer : next.buffer = client.buffer
  messages : next.echoed ++ next.messages = client.echoed ++ client.messages

theorem sent_keeps (client : EchoClient) (message : Buffer) (party : Party) :
    client.Keeps (client.sent message party) := by
  unfold sent
  split <;> exact ⟨rfl, rfl⟩

theorem got_keeps (hmessages : client.messages = message :: rest) (party : Party) :
    client.Keeps (client.got message rest party) := by
  unfold got
  split
  · exact ⟨rfl, rfl⟩
  · exact ⟨rfl, rfl⟩
  · split_ifs
    · exact ⟨rfl, rfl⟩
    · cases rest <;> exact ⟨rfl, by simp [loop, hmessages]⟩

-- A step of the client hands bytes to the connection or takes some from it.
inductive Exchanges (accepted delivered replies : List UInt8) (next : EchoClient) :
    Direction → List UInt8 → Prop
  | gave {moved : List UInt8} (h : next.Stands (accepted ++ moved) delivered) :
      Exchanges accepted delivered replies next .write moved
  | took {moved left : List UInt8} (hqueue : replies = moved ++ left)
      (h : next.Stands accepted (delivered ++ moved)) :
      Exchanges accepted delivered replies next .read moved

theorem exec_stands {further : List UInt8} (h : client.Stands accepted delivered)
    (hfits : ∀ message ∈ client.messages, message.count ≤ client.buffer.count)
    (hcarried : delivered ++ (replies ++ further) = accepted)
    (hexec : client.exec replies action = some (.ok (next, direction, moved))) :
    client.Keeps next ∧ Exchanges accepted delivered replies next direction moved := by
  unfold exec at hexec
  split at hexec
  · rename_i message rest party hmessages hpoint
    obtain ⟨result, hparty, hexec⟩ := Option.bind_eq_some_iff.mp hexec
    simp only [Option.pure_def, Option.some.injEq] at hexec
    obtain ⟨⟨after, items⟩, rfl, hexec⟩ := (bind_eq_ok_iff _ _ _).mp hexec
    obtain ⟨rfl, rfl, rfl⟩ : client.sent message after = next ∧ .write = direction ∧
        items = moved := by simpa using hexec
    simp only [Stands, hpoint, hmessages] at h
    obtain ⟨_, _, hcons, hsending, haccepted, hdelivered⟩ := h
    obtain ⟨rfl, rfl⟩ := List.cons.inj hcons
    have hroom := hfits message (hmessages ▸ List.mem_cons_self)
    have hstands := sent_stands hmessages hroom hsending haccepted hdelivered hparty
    exact ⟨sent_keeps client message after, .gave hstands⟩
  · rename_i message rest party hmessages hpoint
    obtain ⟨result, hparty, hexec⟩ := Option.bind_eq_some_iff.mp hexec
    simp only [Option.pure_def, Option.some.injEq] at hexec
    obtain ⟨⟨after, items⟩, rfl, hexec⟩ := (bind_eq_ok_iff _ _ _).mp hexec
    obtain ⟨rfl, rfl, rfl⟩ : client.got message rest after = next ∧ .read = direction ∧
        items = moved := by simpa using hexec
    simp only [Stands, hpoint, hmessages] at h
    obtain ⟨_, _, hcons, hreceiving, haccepted, hdelivered⟩ := h
    obtain ⟨rfl, rfl⟩ := List.cons.inj hcons
    obtain ⟨⟨left, hqueue⟩, hstands⟩ :=
      got_stands hmessages hreceiving haccepted hdelivered hcarried hparty
    exact ⟨got_keeps hmessages after, .took hqueue hstands⟩
  · cases hexec

end EchoClient

namespace Echo

open Transition

variable {echo next : Echo} {event : Event} {log : List Event} {messages : List Buffer}
  {clientBuffer serverBuffer : Buffer} {held : List UInt8}

def sent (log : List Event) : List UInt8 := Fifo.accepted (log.filterMap Event.label)

def got (log : List Event) : List UInt8 := Fifo.delivered (log.filterMap Event.label)

-- The server and the two directions of the connection are one queue from the client to itself.
structure Loopback (messages : List Buffer) (clientBuffer : Buffer) (log : List Event)
    (echo : Echo) (held : List UInt8) : Prop where
  messages : echo.client.echoed ++ echo.client.messages = messages
  buffer : echo.client.buffer = clientBuffer
  server : echo.server.Holds held
  stream : Fifo.Run (log.filterMap Event.label) (echo.replies ++ (held ++ echo.requests))
  client : echo.client.Stands (sent log) (got log)

theorem Loopback.carried (h : Loopback messages clientBuffer log echo held) :
    got log ++ (echo.replies ++ (held ++ echo.requests)) = sent log :=
  h.stream.conservation

theorem start_loopback : Loopback messages clientBuffer []
    (start messages clientBuffer serverBuffer) [] where
  messages := by cases messages <;> rfl
  buffer := by cases messages <;> rfl
  server := rfl
  stream := Transition.Run.start rfl
  client := EchoClient.loop_stands _ [] messages

theorem Step.loopback (h : Loopback messages clientBuffer log echo held)
    (hfits : ∀ message ∈ messages, message.count ≤ clientBuffer.count)
    (hs : Step echo event next) :
    ∃ held', Loopback messages clientBuffer (event :: log) next held' := by
  obtain ⟨side, action, direction, moved⟩ := event
  cases side with
  | client =>
      obtain ⟨result, hexec, hs⟩ := Option.bind_eq_some_iff.mp hs
      simp only [Option.pure_def, Option.some.injEq] at hs
      obtain ⟨⟨client, direction', moved'⟩, rfl, hs⟩ := (bind_eq_ok_iff _ _ _).mp hs
      have hroom : ∀ message ∈ echo.client.messages, message.count ≤ echo.client.buffer.count := by
        intro message hm
        rw [h.buffer]
        apply hfits
        rw [← h.messages]
        exact List.mem_append_right _ hm
      obtain ⟨hkeeps, hexchanges⟩ :=
        EchoClient.exec_stands h.client hroom h.carried hexec
      have hmessages := hkeeps.messages.trans h.messages
      have hbuffer := hkeeps.buffer.trans h.buffer
      cases hexchanges with
      | gave hstands =>
          obtain ⟨rfl, rfl, rfl⟩ : _ ∧ _ ∧ _ := by simpa using hs
          refine ⟨held, hmessages, hbuffer, h.server, ?_, hstands⟩
          have hput := h.stream.snoc (@Fifo.Step.put UInt8 _ moved')
          simp only [List.append_assoc] at hput
          exact hput
      | took hqueue hstands =>
          obtain ⟨rfl, rfl, rfl⟩ : _ ∧ _ ∧ _ := by simpa using hs
          refine ⟨held, hmessages, hbuffer, h.server, ?_, hstands⟩
          refine h.stream.snoc (.get ?_)
          rw [hqueue, List.drop_left, List.append_assoc]
  | server =>
      obtain ⟨result, hexec, hs⟩ := Option.bind_eq_some_iff.mp hs
      simp only [Option.pure_def, Option.some.injEq] at hs
      obtain ⟨⟨server, direction', moved'⟩, rfl, hs⟩ := (bind_eq_ok_iff _ _ _).mp hs
      obtain ⟨held', hpasses, hholds⟩ := EchoServer.exec_holds h.server hexec
      have hstream := h.stream
      cases hpasses with
      | took hqueue =>
          obtain ⟨rfl, rfl, rfl⟩ : _ ∧ _ ∧ _ := by simpa using hs
          refine ⟨_, h.messages, h.buffer, hholds, ?_, h.client⟩
          rw [hqueue, ← List.append_assoc held] at hstream
          rw [hqueue, List.drop_left]
          exact hstream
      | gave hheld =>
          obtain ⟨rfl, rfl, rfl⟩ : _ ∧ _ ∧ _ := by simpa using hs
          refine ⟨_, h.messages, h.buffer, hholds, ?_, h.client⟩
          rw [hheld, List.append_assoc, ← List.append_assoc echo.replies] at hstream
          exact hstream

theorem Run.loopback (hfits : ∀ message ∈ messages, message.count ≤ clientBuffer.count)
    (h : Run messages clientBuffer serverBuffer log echo) :
    ∃ held, Loopback messages clientBuffer log echo held := by
  refine Transition.Run.invariant_from
    (P := fun log echo => ∃ held, Loopback messages clientBuffer log echo held) ?_ ?_ h
  · exact ⟨[], start_loopback⟩
  · rintro log echo event next - ⟨held, ih⟩ hs
    exact hs.loopback ih hfits

-- As long as a part of the message is missing, it is on its way or the server has it.
theorem Loopback.missing {party : Party} {message : Buffer} {rest : List Buffer}
    (h : Loopback messages clientBuffer log echo held)
    (hpoint : echo.client.point = .receiving party)
    (hmessages : echo.client.messages = message :: rest) :
    party.progress ++ (echo.replies ++ (held ++ echo.requests)) = message.bytes := by
  have hstands := h.client
  simp only [EchoClient.Stands, hpoint, hmessages] at hstands
  obtain ⟨_, _, hcons, -, hsent, hgot⟩ := hstands
  obtain ⟨rfl, rfl⟩ := List.cons.inj hcons
  have hcarried := h.carried
  rw [hsent, hgot, List.append_assoc] at hcarried
  exact List.append_cancel_left hcarried

-- Whatever the kernel does to the calls of the two coroutines, and in whatever order they run:
-- the client compares every message with an echo that is equal to it, the server never sends
-- nothing, and they do not wait for each other while neither has anything to read.
theorem Run.echoes (hfits : ∀ message ∈ messages, message.count ≤ clientBuffer.count)
    (h : Run messages clientBuffer serverBuffer log echo) :
    echo.client.point ≠ .mismatch ∧ echo.server.point ≠ .aborted ∧ got log <+: sent log ∧
    (∀ party message rest, echo.client.point = .receiving party →
      echo.client.messages = message :: rest →
      party.progress.length < message.bytes.length → echo.replies = [] → echo.requests = [] →
        (∃ rv, echo.server.point = .stopped rv) ∨
          ∃ reply, echo.server.point = .sending reply ∧ reply.pending ≠ []) ∧
    (echo.client.point = .passed → echo.client.echoed = messages ∧
      sent log = (messages.map Buffer.bytes).flatten ∧ got log = sent log ∧
      echo.replies = [] ∧ echo.requests = []) := by
  obtain ⟨held, hloop⟩ := Run.loopback hfits h
  have hcarried := hloop.carried
  refine ⟨?_, ?_, ⟨_, hcarried⟩, ?_, ?_⟩
  · intro hpoint
    have hstands := hloop.client
    simp only [EchoClient.Stands, hpoint] at hstands
  · intro hpoint
    have hholds := hloop.server
    simp only [EchoServer.Holds, hpoint] at hholds
  · intro party message rest hpoint hmessages hpart hreplies hrequests
    have hmissing := hloop.missing hpoint hmessages
    rw [hreplies, hrequests, List.append_nil, List.nil_append] at hmissing
    have hheld : held ≠ [] := by
      rintro rfl
      rw [List.append_nil] at hmissing
      rw [hmissing] at hpart
      exact absurd hpart (Nat.lt_irrefl _)
    have hholds := hloop.server
    cases hserver : echo.server.point with
    | find | call | suspended =>
        simp only [EchoServer.Holds, hserver] at hholds
        exact absurd hholds hheld
    | sending reply =>
        simp only [EchoServer.Holds, hserver] at hholds
        obtain ⟨piece, hsending, -⟩ := hholds
        refine .inr ⟨reply, rfl, ?_⟩
        rw [hsending.pending]
        exact List.cons_ne_nil piece []
    | stopped rv => exact .inl ⟨rv, rfl⟩
    | aborted => simp only [EchoServer.Holds, hserver] at hholds
  · intro hpoint
    have hstands := hloop.client
    simp only [EchoClient.Stands, hpoint] at hstands
    obtain ⟨hmessages, hsent, hgot⟩ := hstands
    have hall : echo.client.echoed = messages := by
      have hkept := hloop.messages
      rwa [hmessages, List.append_nil] at hkept
    rw [hsent, hgot] at hcarried
    have hempty := List.append_right_eq_self.mp hcarried
    simp only [List.append_eq_nil_iff] at hempty
    obtain ⟨hreplies, -, hrequests⟩ := hempty
    refine ⟨hall, ?_, hgot.trans hsent.symm, hreplies, hrequests⟩
    rw [hsent, EchoClient.echoedBytes, hall]

-- Five bytes in two pieces, echoed at once after the client has had to wait for them.
def greeting : Buffer := ⟨0x1000, 5, [1, 2, 3, 4, 5], rfl⟩

def blank : Buffer := ⟨0x2000, 8, [0, 0, 0, 0, 0, 0, 0, 0], rfl⟩

def exchange : List (Side × PartyAction) :=
  [(.server, .find .success), (.server, .call ⟨-1, .eagain⟩), (.client, .enter),
    (.client, .find .success), (.client, .call ⟨2, .success⟩), (.client, .find .success),
    (.client, .call ⟨3, .success⟩), (.client, .enter), (.client, .find .success),
    (.client, .call ⟨-1, .eagain⟩), (.server, .resume .success), (.server, .call ⟨5, .success⟩),
    (.server, .enter), (.server, .find .success), (.server, .call ⟨5, .success⟩),
    (.client, .resume .success), (.client, .call ⟨5, .success⟩)]

theorem Run.echoes_exchange :
    let after := (Transition.outcome perform exchange (start [greeting] blank blank)).2
    after.client.point = .passed ∧ after.client.echoed = [greeting] ∧
      after.replies = [] ∧ after.requests = [] := by
  have hrun : Run [greeting] blank blank
      (Transition.outcome perform exchange (start [greeting] blank blank)).1
      (Transition.outcome perform exchange (start [greeting] blank blank)).2 := by
    refine ⟨start [greeting] blank blank, rfl, Transition.outcome_path ?_ rfl⟩
    exact fun _ _ _ _ => perform_step
  have hpassed : (Transition.outcome perform exchange
      (start [greeting] blank blank)).2.client.point = .passed := rfl
  obtain ⟨hechoed, -, -, hreplies, hrequests⟩ := (Run.echoes (by decide) hrun).2.2.2.2 hpassed
  exact ⟨hpassed, hechoed, hreplies, hrequests⟩

end Echo

end Minimk.Socket
