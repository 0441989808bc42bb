import Minimk.Chunked
import Minimk.Io.Script
import Minimk.Socket.Stream.Theorems

namespace Minimk.Io

open Abort Integer Socket

variable {nonzero amount : Assertion} {buffer : Buffer} {total : UInt64} {script : List Reply}
  {exchanges : List Exchange} {rv : Error}

theorem turn_conforms {count : UInt64} {reply : Reply} (h : reply.Conforms (count - total)) :
    turn nonzero amount count total reply.rv reply.moved = .ok
      (if reply.rv = .eintr then .ok total
        else if reply.rv = .success then .ok (total + reply.moved) else .error reply.rv) := by
  unfold turn
  by_cases heintr : reply.rv = .eintr
  · rw [if_pos heintr, if_pos heintr]
  · rw [if_neg heintr, if_neg heintr]
    by_cases hrv : reply.rv = .success
    · obtain ⟨hpos, hle⟩ := h.success hrv
      simp [hrv, hpos, hle]
    · rw [if_pos hrv, if_neg hrv]

theorem fits_iff (buffer : Buffer) :
    buffer.base ≤ UINT64_MAX - buffer.count ↔ Valid buffer := by
  have hcount := buffer.count.toNat_lt
  rw [UInt64.le_iff_toNat_le, toNat_max_sub]
  unfold Valid
  omega

-- An exchange as a call at a place in the buffer.
def label (buffer : Buffer) (chunk : Exchange → List UInt8) (exchange : Exchange) :
    Chunked.Call UInt8 Error where
  place := exchange.place buffer
  report :=
    if exchange.reply.rv = .eintr then .again
    else if exchange.reply.rv = .success then .moved (chunk exchange)
    else .failed exchange.reply.rv

def Outcome.of : Option (Except Error Unit) → Outcome
  | none => .pending
  | some (.ok _) => .returned .success
  | some (.error rv) => .returned rv

theorem toNat_add_total (hvalid : Valid buffer) (htotal : total ≤ buffer.count) :
    (buffer.base + total).toNat = buffer.base.toNat + total.toNat := by
  have hle := UInt64.le_iff_toNat_le.mp htotal
  rw [UInt64.toNat_add]
  unfold Valid at hvalid
  omega

section Loop

variable {step : UInt64 → UInt64 → Error → UInt64 → Except Assertion (Except Error UInt64)}
  {buf count next : UInt64} {reply : Reply}

theorem loop_head (hlt : total < count) :
    ∃ rest, (loop step buf count total (reply :: script)).1 =
      ⟨⟨buf + total, count - total⟩, reply⟩ :: rest := by
  simp only [loop, hlt, ↓reduceIte]
  split
  · exact ⟨_, rfl⟩
  · exact ⟨_, rfl⟩
  · exact ⟨_, rfl⟩

theorem loop_continue (hlt : total < count)
    (hstep : step count total reply.rv reply.moved = .ok (.ok next)) :
    loop step buf count total (reply :: script) =
      (⟨⟨buf + total, count - total⟩, reply⟩ :: (loop step buf count next script).1,
        (loop step buf count next script).2) := by
  simp only [loop, hlt, ↓reduceIte, hstep]

theorem loop_stop (hlt : total < count)
    (hstep : step count total reply.rv reply.moved = .ok (.error rv)) :
    loop step buf count total (reply :: script) =
      ([⟨⟨buf + total, count - total⟩, reply⟩], .returned rv) := by
  simp only [loop, hlt, ↓reduceIte, hstep]

theorem loop_done (hlt : ¬total < count) :
    loop step buf count total script = ([], .returned .success) := by
  cases script <;> simp only [loop, hlt, ↓reduceIte]

end Loop

-- The replies of a script are taken in order, one for each call.
theorem loop_replies
    {step : UInt64 → UInt64 → Error → UInt64 → Except Assertion (Except Error UInt64)}
    {buf count : UInt64} :
    ((loop step buf count total script).1.map fun exchange => exchange.reply) <+: script := by
  induction script generalizing total with
  | nil =>
      by_cases hlt : total < count
      · simp [loop, hlt]
      · simp [loop_done hlt]
  | cons reply script ih =>
      by_cases hlt : total < count
      · simp only [loop, hlt, ↓reduceIte]
        split
        · simp
        · simp
        · rw [List.map_cons, List.prefix_cons_inj]
          exact ih
      · simp [loop_done hlt]

-- The induction is on the script: every reply that does not end the loop leaves a rest of the
-- script that is as short for the rest of the buffer.
theorem loop_pending_iff {buf count : UInt64} (htotal : total ≤ count)
    (hconforms : ∀ exchange ∈ (loop (turn nonzero amount) buf count total script).1,
      exchange.reply.Conforms exchange.call.amount) :
    (loop (turn nonzero amount) buf count total script).2 = .pending ↔
      (∀ reply ∈ script, reply.rv = .success ∨ reply.rv = .eintr) ∧
        total.toNat + (script.map fun reply => reply.moved.toNat).sum < count.toNat := by
  induction script generalizing total with
  | nil =>
      by_cases hlt : total < count
      · simpa [loop, hlt] using UInt64.lt_iff_toNat_lt.mp hlt
      · simpa [loop, hlt] using UInt64.lt_iff_toNat_lt.not.mp hlt
  | cons reply script ih =>
      by_cases hlt : total < count
      · obtain ⟨rest, hhead⟩ := @loop_head total script (turn nonzero amount) buf count reply hlt
        have hreply : reply.Conforms (count - total) := by
          refine hconforms ⟨⟨buf + total, count - total⟩, reply⟩ ?_
          rw [hhead]
          exact List.mem_cons_self
        have hturn := @turn_conforms nonzero amount total count reply hreply
        by_cases hintr : reply.rv = .eintr
        · have hmoved : reply.moved = 0 := hreply.failure (by simp [hintr])
          rw [if_pos hintr] at hturn
          rw [loop_continue hlt hturn] at hconforms ⊢
          have hrest := ih htotal fun exchange hm => hconforms exchange (List.mem_cons_of_mem _ hm)
          simp [hrest, hintr, hmoved]
        · rw [if_neg hintr] at hturn
          by_cases hrv : reply.rv = .success
          · obtain ⟨-, hle⟩ := hreply.success hrv
            rw [if_pos hrv] at hturn
            rw [loop_continue hlt hturn] at hconforms ⊢
            have hrest := ih (add_le_of_room htotal hle)
              fun exchange hm => hconforms exchange (List.mem_cons_of_mem _ hm)
            rw [hrest, toNat_add_of_room htotal hle]
            simp [hrv, Nat.add_assoc]
          · rw [if_neg hrv] at hturn
            rw [loop_stop hlt hturn]
            simp [hintr, hrv]
      · rw [loop_done hlt]
        rw [UInt64.lt_iff_toNat_lt] at hlt
        simp only [reduceCtorEq, false_iff, not_and]
        omega

-- What the exchanges of a loop come to, as a transfer in chunks.
structure Follows (buffer : Buffer) (chunk : Exchange → List UInt8) (total : UInt64)
    (exchanges : List Exchange) (result : Option (Except Error Unit)) : Prop where
  transfer : Chunked.Transfer buffer.count.toNat total.toNat (exchanges.map (label buffer chunk))
    result
  failure : ∀ rv, result = some (.error rv) → rv ≠ .success ∧ rv ≠ .eintr
  rest : ∀ exchange ∈ exchanges, buffer.base ≤ exchange.call.buf ∧
    exchange.place buffer + exchange.call.amount.toNat = buffer.count.toNat

-- The exchange at the head of the loop.
def exchangeAt (buffer : Buffer) (total : UInt64) (reply : Reply) : Exchange :=
  ⟨⟨buffer.base + total, buffer.count - total⟩, reply⟩

section Follows

variable {chunk : Exchange → List UInt8} {reply : Reply} {result : Option (Except Error Unit)}

theorem exchangeAt_place (hvalid : Valid buffer) (htotal : total ≤ buffer.count) :
    (exchangeAt buffer total reply).place buffer = total.toNat := by
  simp only [Exchange.place, exchangeAt, toNat_add_total hvalid htotal]
  omega

theorem exchangeAt_rest (hvalid : Valid buffer) (htotal : total ≤ buffer.count) :
    buffer.base ≤ (exchangeAt buffer total reply).call.buf ∧
      (exchangeAt buffer total reply).place buffer +
        (exchangeAt buffer total reply).call.amount.toNat = buffer.count.toNat := by
  have hle := UInt64.le_iff_toNat_le.mp htotal
  refine ⟨?_, ?_⟩
  · rw [UInt64.le_iff_toNat_le, exchangeAt, toNat_add_total hvalid htotal]
    omega
  · rw [exchangeAt_place hvalid htotal, exchangeAt, UInt64.toNat_sub_of_le _ _ htotal]
    omega

theorem Follows.done (htotal : total ≤ buffer.count) (hlt : ¬total < buffer.count) :
    Follows buffer chunk total [] (some (.ok ())) where
  transfer := by
    have he : total = buffer.count := UInt64.le_antisymm htotal (UInt64.not_lt.mp hlt)
    rw [he]
    exact .done
  failure := by simp
  rest := by simp

theorem Follows.stop (hvalid : Valid buffer) (hlt : total < buffer.count)
    (hintr : reply.rv ≠ .eintr) (hrv : reply.rv ≠ .success) :
    Follows buffer chunk total [exchangeAt buffer total reply] (some (.error reply.rv)) where
  transfer := by
    have hlabel : label buffer chunk (exchangeAt buffer total reply) =
        ⟨total.toNat, .failed reply.rv⟩ := by
      simp only [label, exchangeAt_place hvalid (UInt64.le_of_lt hlt)]
      simp only [exchangeAt, hintr, hrv, ↓reduceIte]
    rw [List.map_singleton, hlabel]
    exact .failed (UInt64.lt_iff_toNat_lt.mp hlt)
  failure := by
    intro rv he
    simp only [Option.some.injEq, Except.error.injEq] at he
    exact he ▸ ⟨hrv, hintr⟩
  rest := by
    intro exchange hm
    rw [List.mem_singleton.mp hm]
    exact exchangeAt_rest hvalid (UInt64.le_of_lt hlt)

theorem Follows.again (h : Follows buffer chunk total exchanges result) (hvalid : Valid buffer)
    (hlt : total < buffer.count) (hintr : reply.rv = .eintr) :
    Follows buffer chunk total (exchangeAt buffer total reply :: exchanges) result where
  transfer := by
    have hlabel : label buffer chunk (exchangeAt buffer total reply) = ⟨total.toNat, .again⟩ := by
      simp only [label, exchangeAt_place hvalid (UInt64.le_of_lt hlt)]
      simp only [exchangeAt, hintr, ↓reduceIte]
    rw [List.map_cons, hlabel]
    exact .again (UInt64.lt_iff_toNat_lt.mp hlt) h.transfer
  failure := h.failure
  rest := by
    intro exchange hm
    rcases List.mem_cons.mp hm with rfl | hm
    · exact exchangeAt_rest hvalid (UInt64.le_of_lt hlt)
    · exact h.rest exchange hm

theorem Follows.moved (h : Follows buffer chunk (total + reply.moved) exchanges result)
    (hvalid : Valid buffer) (hlt : total < buffer.count) (hrv : reply.rv = .success)
    (hpos : 0 < reply.moved) (hle : reply.moved ≤ buffer.count - total)
    (hchunk : (chunk (exchangeAt buffer total reply)).length = reply.moved.toNat) :
    Follows buffer chunk total (exchangeAt buffer total reply :: exchanges) result where
  transfer := by
    have htotal := UInt64.le_of_lt hlt
    have hlabel : label buffer chunk (exchangeAt buffer total reply) =
        ⟨total.toNat, .moved (chunk (exchangeAt buffer total reply))⟩ := by
      simp only [label, exchangeAt_place hvalid htotal]
      simp only [exchangeAt, hrv, reduceCtorEq, ↓reduceIte]
    have htransfer := h.transfer
    rw [toNat_add_of_room htotal hle, ← hchunk] at htransfer
    rw [List.map_cons, hlabel]
    refine .moved ?_ ?_ htransfer
    · rw [hchunk]
      exact UInt64.lt_iff_toNat_lt.mp hpos
    · rw [hchunk]
      exact toNat_add_le_of_room htotal hle
  failure := h.failure
  rest := by
    intro exchange hm
    rcases List.mem_cons.mp hm with rfl | hm
    · exact exchangeAt_rest hvalid (UInt64.le_of_lt hlt)
    · exact h.rest exchange hm

end Follows

-- The loop follows its script, as long as the replies keep to the contract.
theorem loop_follows (hvalid : Valid buffer) (htotal : total ≤ buffer.count)
    (chunk : Exchange → List UInt8)
    (hconforms : ∀ exchange ∈ (loop (turn nonzero amount) buffer.base buffer.count total script).1,
      exchange.reply.Conforms exchange.call.amount)
    (hchunk : ∀ exchange ∈ (loop (turn nonzero amount) buffer.base buffer.count total script).1,
      exchange.place buffer + exchange.reply.moved.toNat ≤ buffer.count.toNat →
      (chunk exchange).length = exchange.reply.moved.toNat) :
    ∃ result,
      (loop (turn nonzero amount) buffer.base buffer.count total script).2 = .of result ∧
      Follows buffer chunk total
        (loop (turn nonzero amount) buffer.base buffer.count total script).1 result := by
  induction script generalizing total with
  | nil =>
      by_cases hlt : total < buffer.count
      · refine ⟨none, by simp [loop, hlt, Outcome.of], ?_, by simp, by simp [loop, hlt]⟩
        simpa [loop, hlt] using Chunked.Transfer.running (UInt64.lt_iff_toNat_lt.mp hlt)
      · rw [loop_done hlt]
        exact ⟨some (.ok ()), rfl, .done htotal hlt⟩
  | cons reply script ih =>
      by_cases hlt : total < buffer.count
      · obtain ⟨rest, hhead⟩ := @loop_head total script (turn nonzero amount) buffer.base
          buffer.count reply hlt
        have hmem : exchangeAt buffer total reply ∈
            (loop (turn nonzero amount) buffer.base buffer.count total (reply :: script)).1 := by
          rw [hhead]
          exact List.mem_cons_self
        have hreply : reply.Conforms (buffer.count - total) := hconforms _ hmem
        have hturn := @turn_conforms nonzero amount total buffer.count reply hreply
        by_cases hintr : reply.rv = .eintr
        · rw [if_pos hintr] at hturn
          rw [loop_continue hlt hturn] at hconforms hchunk ⊢
          obtain ⟨result, hout, hfollows⟩ := ih htotal
            (fun exchange hm => hconforms exchange (List.mem_cons_of_mem _ hm))
            (fun exchange hm => hchunk exchange (List.mem_cons_of_mem _ hm))
          exact ⟨result, hout, hfollows.again hvalid hlt hintr⟩
        · rw [if_neg hintr] at hturn
          by_cases hrv : reply.rv = .success
          · rw [if_pos hrv] at hturn
            obtain ⟨hpos, hle⟩ := hreply.success hrv
            have hlength := hchunk _ hmem
            rw [loop_continue hlt hturn] at hconforms hchunk ⊢
            obtain ⟨result, hout, hfollows⟩ := ih (add_le_of_room htotal hle)
              (fun exchange hm => hconforms exchange (List.mem_cons_of_mem _ hm))
              (fun exchange hm => hchunk exchange (List.mem_cons_of_mem _ hm))
            refine ⟨result, hout, hfollows.moved hvalid hlt hrv hpos hle (hlength ?_)⟩
            rw [exchangeAt_place hvalid htotal]
            exact toNat_add_le_of_room htotal hle
          · rw [if_neg hrv] at hturn
            rw [loop_stop hlt hturn]
            exact ⟨_, rfl, .stop hvalid hlt hintr hrv⟩
      · rw [loop_done hlt]
        exact ⟨some (.ok ()), rfl, .done htotal hlt⟩

section Results

variable {chunk : Exchange → List UInt8} {result : Option (Except Error Unit)}

-- The place of an exchange is that of its call, behind the chunks before it.
theorem Follows.place_eq (h : Follows buffer chunk 0 exchanges result)
    {before after : List Exchange} {exchange : Exchange}
    (hexchanges : exchanges = before ++ exchange :: after) :
    exchange.place buffer =
        (Chunked.items (before.map (label buffer chunk))).length ∧
      exchange.place buffer < buffer.count.toNat := by
  have hcalls : exchanges.map (label buffer chunk) = before.map (label buffer chunk) ++
      label buffer chunk exchange :: after.map (label buffer chunk) := by
    rw [hexchanges, List.map_append, List.map_cons]
  have hplace := h.transfer.place_eq hcalls
  rw [UInt64.toNat_zero, Nat.zero_add] at hplace
  exact hplace

theorem Follows.calls (h : Follows buffer chunk 0 exchanges result) : Calls buffer exchanges where
  rest := by
    intro exchange hm
    obtain ⟨hbase, hrest⟩ := h.rest exchange hm
    obtain ⟨before, after, hsplit⟩ := List.append_of_mem hm
    have hplace := (h.place_eq hsplit).2
    refine ⟨?_, hbase, hrest⟩
    rw [UInt64.lt_iff_toNat_lt, UInt64.toNat_zero]
    omega
  retry := by
    intro before exchange next after hsplit hintr
    have hnext : exchanges = (before ++ [exchange]) ++ next :: after := by simpa using hsplit
    have hlabel : (label buffer chunk exchange).report.items = [] := by
      simp [label, hintr, Chunked.Report.items]
    have hplace := (h.place_eq hsplit).1
    have hplace' := (h.place_eq hnext).1
    simp only [List.map_append, List.map_cons, List.map_nil, Chunked.items_append,
      Chunked.items_cons, Chunked.items_nil, hlabel, List.append_nil] at hplace'
    obtain ⟨hbase, hrest⟩ := h.rest exchange (by simp [hsplit])
    obtain ⟨hbase', hrest'⟩ := h.rest next (by simp [hsplit])
    rw [UInt64.le_iff_toNat_le] at hbase hbase'
    have hsame := hplace'.trans hplace.symm
    have hbuf : next.call.buf = exchange.call.buf := by
      apply UInt64.toNat_inj.mp
      unfold Exchange.place at hsame
      omega
    have hamount : next.call.amount = exchange.call.amount := by
      apply UInt64.toNat_inj.mp
      omega
    obtain ⟨⟨buf, amount⟩, reply⟩ := exchange
    obtain ⟨⟨buf', amount'⟩, reply'⟩ := next
    simp only at hbuf hamount
    rw [hbuf, hamount]

theorem Follows.firstError (h : Follows buffer chunk 0 exchanges (some (.error rv))) :
    FirstError exchanges rv := by
  obtain ⟨hrv, hintr⟩ := h.failure rv rfl
  obtain ⟨before, place, hcalls, hother⟩ := h.transfer.failure rfl
  obtain ⟨first, last, rfl, rfl, hlast⟩ := List.map_eq_append_iff.mp hcalls
  obtain ⟨exchange, rfl, hlabel⟩ := List.map_eq_singleton_iff.mp hlast
  have hreport := congrArg Chunked.Call.report hlabel
  refine ⟨first, exchange, rfl, ?_, hintr, ?_⟩
  · simp only [label] at hreport
    split_ifs at hreport with hagain hmoved
    simpa using hreport
  · intro other hm
    have hnot := hother _ (List.mem_map_of_mem hm)
    by_cases hagain : other.reply.rv = .eintr
    · exact .inr hagain
    · by_cases hmoved : other.reply.rv = .success
      · exact .inl hmoved
      · exact absurd (by simp [label, hagain, hmoved]) (hnot other.reply.rv)

theorem items_label (hempty : ∀ exchange ∈ exchanges, exchange.reply.rv ≠ .success →
      chunk exchange = []) :
    Chunked.items (exchanges.map (label buffer chunk)) = exchanges.flatMap chunk := by
  induction exchanges with
  | nil => rfl
  | cons exchange exchanges ih =>
      have hhead : (label buffer chunk exchange).report.items = chunk exchange := by
        have hnone := hempty exchange List.mem_cons_self
        unfold label
        by_cases hagain : exchange.reply.rv = .eintr
        · simp [hagain, Chunked.Report.items, hnone (by simp [hagain])]
        · by_cases hmoved : exchange.reply.rv = .success
          · simp [hmoved, Chunked.Report.items]
          · simp [hagain, hmoved, Chunked.Report.items, hnone hmoved]
      rw [List.map_cons, Chunked.items_cons, hhead, List.flatMap_cons,
        ih fun other hm => hempty other (List.mem_cons_of_mem _ hm)]

end Results

section Received

theorem store_eq_overwrite {offset : Nat} {items : List UInt8}
    (h : offset + items.length ≤ buffer.bytes.length) :
    (buffer.store offset items).bytes = Chunked.overwrite buffer.bytes offset items := by
  have hlength : (Chunked.overwrite buffer.bytes offset items).length = buffer.bytes.length := by
    simp only [Chunked.overwrite, List.length_append, List.length_take, List.length_drop]
    omega
  apply List.ext_getElem
  · rw [hlength]
    simp [Buffer.store]
  · intro idx hleft hright
    have hidx : idx < buffer.bytes.length := by rwa [hlength] at hright
    simp only [Buffer.store, List.getElem_mapIdx, Chunked.overwrite, List.append_assoc]
    by_cases ho : offset ≤ idx
    · rw [if_pos ho, List.getElem_append_right (by simp; omega)]
      have htake : (buffer.bytes.take offset).length = offset := by
        simp only [List.length_take]
        omega
      by_cases hin : idx - offset < items.length
      · rw [List.getElem?_eq_getElem hin, Option.getD_some, List.getElem_append_left (by omega)]
        simp only [htake]
      · rw [List.getElem?_eq_none (by omega), Option.getD_none,
          List.getElem_append_right (by omega), List.getElem_drop]
        congr 1
        omega
    · have hbefore : idx < (buffer.bytes.take offset).length := by
        simp only [List.length_take]
        omega
      rw [if_neg ho, List.getElem_append_left hbefore, List.getElem_take]

theorem foldl_store {stored : Buffer}
    (hroom : ∀ exchange ∈ exchanges,
      exchange.place buffer + exchange.reply.bytes.length ≤ stored.count.toNat)
    (hempty : ∀ exchange ∈ exchanges, exchange.reply.rv ≠ .success → exchange.reply.bytes = []) :
    (exchanges.foldl (fun stored exchange =>
        stored.store (exchange.place buffer) exchange.reply.bytes) stored).bytes =
      Chunked.fill stored.bytes (exchanges.map (label buffer fun exchange =>
        exchange.reply.bytes)) := by
  induction exchanges generalizing stored with
  | nil => rfl
  | cons exchange exchanges ih =>
      have hhead : (label buffer (fun exchange => exchange.reply.bytes) exchange).report.items =
          exchange.reply.bytes := by
        have hone := @items_label buffer [exchange] (fun exchange => exchange.reply.bytes) (by
          intro other hm
          rw [List.mem_singleton.mp hm]
          exact hempty exchange List.mem_cons_self)
        simpa using hone
      have hfit := hroom exchange List.mem_cons_self
      rw [← stored.length_eq] at hfit
      have hstored := store_eq_overwrite hfit
      rw [List.foldl_cons, ih]
      · rw [hstored, List.map_cons, Chunked.fill, Chunked.fill, List.foldl_cons, hhead]
        rfl
      · exact fun other hm => hroom other (List.mem_cons_of_mem _ hm)
      · exact fun other hm => hempty other (List.mem_cons_of_mem _ hm)

end Received

theorem Reply.Conforms.bytes_eq_nil {reply : Reply} {amount : UInt64} (h : reply.Conforms amount)
    (hstores : reply.Stores) (hrv : reply.rv ≠ .success) : reply.bytes = [] := by
  unfold Reply.Stores at hstores
  rw [h.failure hrv] at hstores
  exact List.length_eq_zero_iff.mp hstores

theorem writeall_eq (hvalid : Valid buffer) (script : List Reply) :
    writeall buffer.base buffer.count script =
      loop (turn .writeallNonzero .writeallAmount) buffer.base buffer.count 0 script := by
  have hfits := (fits_iff buffer).mpr hvalid
  simp [writeall, writeallStart, writeallTurn, hfits]

theorem readall_eq (hvalid : Valid buffer) (script : List Reply) :
    readall buffer.base buffer.count script =
      loop (turn .readallNonzero .readallAmount) buffer.base buffer.count 0 script := by
  have hfits := (fits_iff buffer).mpr hvalid
  simp [readall, readallStart, readallTurn, hfits]

theorem zero_le_count (count : UInt64) : 0 ≤ count := by
  rw [UInt64.le_iff_toNat_le]
  exact Nat.zero_le _

-- A transfer that is not pending has returned: with success, or with its first error.
theorem Follows.returned {chunk : Exchange → List UInt8} {result : Option (Except Error Unit)}
    (h : Follows buffer chunk 0 exchanges result) (hreturns : Outcome.of result ≠ .pending) :
    ∃ rv, Outcome.of result = .returned rv ∧
      (rv = .success ↔ result = some (.ok ())) ∧
      (rv ≠ .success → FirstError exchanges rv) := by
  cases result with
  | none => exact absurd rfl hreturns
  | some final =>
      cases final with
      | ok u => exact ⟨.success, rfl, by simp, fun hrv => absurd rfl hrv⟩
      | error rv =>
          obtain ⟨hrv, -⟩ := h.failure rv rfl
          exact ⟨rv, rfl, by simp [hrv], fun _ => h.firstError⟩

section Returned

variable {result : Option (Except Error Unit)}

theorem Follows.writesAll (h : Follows buffer (Exchange.accepted buffer) 0 exchanges result)
    (hconforms : ∀ exchange ∈ exchanges, exchange.reply.Conforms exchange.call.amount)
    (hreturns : Outcome.of result ≠ .pending) :
    ∃ rv, Outcome.of result = .returned rv ∧ WritesAll buffer exchanges rv := by
  obtain ⟨rv, hrv, hsuccess, herror⟩ := h.returned hreturns
  have hitems : Chunked.items (exchanges.map (label buffer (Exchange.accepted buffer))) =
      exchanges.flatMap (Exchange.accepted buffer) := by
    refine items_label fun exchange hm hne => ?_
    simp [Exchange.accepted, (hconforms exchange hm).failure hne]
  obtain ⟨hle, hend⟩ := h.transfer.length_items
  have htaken := h.transfer.items_eq buffer.bytes (by
    intro call hm
    obtain ⟨exchange, hx, rfl⟩ := List.mem_map.mp hm
    simp only [label]
    split_ifs
    · exact List.nil_prefix
    · exact List.take_prefix _ _
    · exact List.nil_prefix)
  rw [hitems, UInt64.toNat_zero, List.drop_zero] at htaken
  rw [hitems, UInt64.toNat_zero, Nat.zero_add] at hle hend
  have hall : exchanges.flatMap (Exchange.accepted buffer) = buffer.bytes ↔
      (exchanges.flatMap (Exchange.accepted buffer)).length = buffer.count.toNat := by
    rw [← buffer.length_eq]
    constructor
    · intro he
      rw [he]
    · intro he
      rw [he, List.take_length] at htaken
      exact htaken
  refine ⟨rv, hrv, h.calls, ?_, ?_⟩
  · rw [hsuccess, hend, hall]
  · intro hne
    refine ⟨herror hne, ?_, ?_⟩
    · rw [htaken]
      exact List.take_prefix _ _
    · intro he
      exact hne (hsuccess.mpr (hend.mpr (hall.mp he)))

theorem Follows.readsAll
    (h : Follows buffer (fun exchange => exchange.reply.bytes) 0 exchanges result)
    (hconforms : ∀ exchange ∈ exchanges,
      exchange.reply.Conforms exchange.call.amount ∧ exchange.reply.Stores)
    (hreturns : Outcome.of result ≠ .pending) :
    ∃ rv, Outcome.of result = .returned rv ∧ ReadsAll buffer exchanges rv := by
  obtain ⟨rv, hrv, hsuccess, herror⟩ := h.returned hreturns
  have hempty : ∀ exchange ∈ exchanges, exchange.reply.rv ≠ .success →
      exchange.reply.bytes = [] :=
    fun exchange hm => (hconforms exchange hm).1.bytes_eq_nil (hconforms exchange hm).2
  have hitems : Chunked.items (exchanges.map (label buffer fun exchange => exchange.reply.bytes)) =
      delivered exchanges := items_label hempty
  obtain ⟨hle, hend⟩ := h.transfer.length_items
  rw [hitems, UInt64.toNat_zero, Nat.zero_add] at hle hend
  refine ⟨rv, hrv, h.calls, ?_, ?_, ?_, ?_⟩
  · rw [hsuccess, hend]
  · intro hne
    have hlt : (delivered exchanges).length ≠ buffer.count.toNat :=
      fun he => hne (hsuccess.mpr (hend.mpr he))
    exact ⟨herror hne, by omega⟩
  · intro before exchange after hsplit
    have hplace := (h.place_eq hsplit).1
    rw [items_label fun other hm => hempty other (by simp [hsplit, hm])] at hplace
    exact hplace
  · have hroom : ∀ exchange ∈ exchanges,
        exchange.place buffer + exchange.reply.bytes.length ≤ buffer.count.toNat := by
      intro exchange hm
      obtain ⟨hconform, hstores⟩ := hconforms exchange hm
      have hrest := (h.rest exchange hm).2
      by_cases hne : exchange.reply.rv = .success
      · have hamount := UInt64.le_iff_toNat_le.mp (hconform.success hne).2
        unfold Reply.Stores at hstores
        omega
      · rw [hempty exchange hm hne, List.length_nil]
        omega
    rw [received, foldl_store hroom hempty, h.transfer.fill_eq buffer.bytes buffer.length_eq,
      hitems, UInt64.toNat_zero]
    simp [Chunked.overwrite]

end Returned

theorem writeall_writesAll (hvalid : Valid buffer)
    (hconforms : ∀ exchange ∈ (writeall buffer.base buffer.count script).1,
      exchange.reply.Conforms exchange.call.amount)
    (hreturns : (writeall buffer.base buffer.count script).2 ≠ .pending) :
    ∃ rv, (writeall buffer.base buffer.count script).2 = .returned rv ∧
      WritesAll buffer (writeall buffer.base buffer.count script).1 rv := by
  rw [writeall_eq hvalid] at *
  obtain ⟨result, hout, hfollows⟩ := loop_follows hvalid (zero_le_count buffer.count)
    (Exchange.accepted buffer) hconforms (by
      intro exchange _ hroom
      simp only [Exchange.accepted, List.length_take, List.length_drop, buffer.length_eq]
      omega)
  rw [hout] at hreturns ⊢
  exact hfollows.writesAll hconforms hreturns

theorem readall_readsAll (hvalid : Valid buffer)
    (hconforms : ∀ exchange ∈ (readall buffer.base buffer.count script).1,
      exchange.reply.Conforms exchange.call.amount ∧ exchange.reply.Stores)
    (hreturns : (readall buffer.base buffer.count script).2 ≠ .pending) :
    ∃ rv, (readall buffer.base buffer.count script).2 = .returned rv ∧
      ReadsAll buffer (readall buffer.base buffer.count script).1 rv := by
  rw [readall_eq hvalid] at *
  obtain ⟨result, hout, hfollows⟩ := loop_follows hvalid (zero_le_count buffer.count)
    (fun exchange => exchange.reply.bytes) (fun exchange hm => (hconforms exchange hm).1)
    fun exchange hm _ => (hconforms exchange hm).2
  rw [hout] at hreturns ⊢
  exact hfollows.readsAll hconforms hreturns

theorem writeall_pending_iff (hvalid : Valid buffer)
    (hconforms : ∀ exchange ∈ (writeall buffer.base buffer.count script).1,
      exchange.reply.Conforms exchange.call.amount) :
    (writeall buffer.base buffer.count script).2 = .pending ↔ TooShort buffer.count script := by
  rw [writeall_eq hvalid] at *
  rw [loop_pending_iff (zero_le_count buffer.count) hconforms, UInt64.toNat_zero, Nat.zero_add]
  rfl

theorem readall_pending_iff (hvalid : Valid buffer)
    (hconforms : ∀ exchange ∈ (readall buffer.base buffer.count script).1,
      exchange.reply.Conforms exchange.call.amount) :
    (readall buffer.base buffer.count script).2 = .pending ↔ TooShort buffer.count script := by
  rw [readall_eq hvalid] at *
  rw [loop_pending_iff (zero_le_count buffer.count) hconforms, UInt64.toNat_zero, Nat.zero_add]
  rfl

theorem writeall_readall (hvalid : Valid buffer) (script : List Reply) :
    ((∀ exchange ∈ (writeall buffer.base buffer.count script).1,
        exchange.reply.Conforms exchange.call.amount) →
      ((writeall buffer.base buffer.count script).1.map fun exchange => exchange.reply) <+:
          script ∧
        ((writeall buffer.base buffer.count script).2 = .pending ↔
          TooShort buffer.count script) ∧
        ((writeall buffer.base buffer.count script).2 ≠ .pending →
          ∃ rv, (writeall buffer.base buffer.count script).2 = .returned rv ∧
            WritesAll buffer (writeall buffer.base buffer.count script).1 rv)) ∧
    ((∀ exchange ∈ (readall buffer.base buffer.count script).1,
        exchange.reply.Conforms exchange.call.amount ∧ exchange.reply.Stores) →
      ((readall buffer.base buffer.count script).1.map fun exchange => exchange.reply) <+:
          script ∧
        ((readall buffer.base buffer.count script).2 = .pending ↔
          TooShort buffer.count script) ∧
        ((readall buffer.base buffer.count script).2 ≠ .pending →
          ∃ rv, (readall buffer.base buffer.count script).2 = .returned rv ∧
            ReadsAll buffer (readall buffer.base buffer.count script).1 rv)) := by
  constructor
  · intro hconforms
    refine ⟨?_, writeall_pending_iff hvalid hconforms, writeall_writesAll hvalid hconforms⟩
    rw [writeall_eq hvalid]
    exact loop_replies
  · intro hconforms
    refine ⟨?_, readall_pending_iff hvalid fun exchange hm => (hconforms exchange hm).1,
      readall_readsAll hvalid hconforms⟩
    rw [readall_eq hvalid]
    exact loop_replies

-- The peer takes the buffer in two parts; it closes the connection one byte short of the end.
def shortBuffer : Buffer := ⟨0x1000, 3, [4, 5, 6], rfl⟩

def wholeStream : List Reply := [⟨.success, 2, []⟩, ⟨.eintr, 0, []⟩, ⟨.success, 1, []⟩]

def shortStream : List Reply := [⟨.eintr, 0, []⟩, ⟨.success, 2, [7, 8]⟩, ⟨.eof, 0, []⟩]

theorem writeall_readall_shortStream :
    WritesAll shortBuffer (writeall shortBuffer.base shortBuffer.count wholeStream).1 .success ∧
      ReadsAll shortBuffer (readall shortBuffer.base shortBuffer.count shortStream).1 .eof := by
  have hvalid : Valid shortBuffer := by
    unfold Valid
    decide
  constructor
  · obtain ⟨-, hpending, hreturns⟩ := (writeall_readall hvalid wholeStream).1 (by decide)
    obtain ⟨rv, hrv, hwrites⟩ := hreturns (hpending.not.mpr (by decide))
    obtain rfl : .success = rv := Outcome.returned.inj (Eq.trans rfl hrv)
    exact hwrites
  · obtain ⟨-, hpending, hreturns⟩ := (writeall_readall hvalid shortStream).2 (by decide)
    obtain ⟨rv, hrv, hreads⟩ := hreturns (hpending.not.mpr (by decide))
    obtain rfl : .eof = rv := Outcome.returned.inj (Eq.trans rfl hrv)
    exact hreads

end Minimk.Io
