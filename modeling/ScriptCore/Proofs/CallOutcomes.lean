import ScriptCore.Proofs.HandledSums
import ScriptCore.Proofs.StagedSums
import ScriptCore.Proofs.TailLoops

/-!
# Outcomes of calls

Requests whose calls nest to a known depth have one outcome where there is room for all of them, and
one where there is not (`Nests`).

* A countdown by plain calls nests as deep as it counts (`nests_of_counts`).
* A countdown by tail calls does not nest (`TailLoop.nests`).
* A sum over a callee or a handler nests twice (`nests_of_sums`, `nests_of_adds`).

The stack that an answered request leaves has a capacity that depends on the one before only, and
what it left once is enough for the next time (`Stack.grownAll_grownAll`).
-/

namespace ScriptCore

open Machine Interpreter

variable {F S : Type}

/-- How a request ends that comes to `calls` calls in progress at once: with an integer, and then
the stack has been grown by given needs, or, without room for so many, with a stack overflow. Only
the stack, the trace and the result channel are changed. -/
inductive Nests (m : Machine F S) (calls : Nat) (needs : List Nat) (v : Int64) :
    EStateM.Result Unwind (Machine F S) Unit → Prop
  | value (hroom : calls ≤ m.world.config.maxCallDepth) (x : Stack)
    (y : Option (Array TraceEvent))
    (hcapacity : x.capacity = Stack.grownAll needs m.thread.stack.capacity) :
    Nests m calls needs v (.ok () ((m.restack x y).withResults [.int v]))
  | full (hfull : m.world.config.maxCallDepth < calls) (x : Stack)
    (y : Option (Array TraceEvent)) (r : Results) : Nests m calls needs v
      (.error (.fault (.stackOverflow m.world.config.maxCallDepth))
        ((m.restack x y).withChannel r))

section Requests

variable [HostBody F S] {m : Machine F S} {f g : FnId} {n : Int64} {w : View} {fuel : Nat}

/-- A machine without room for one call answers every call in the same way. -/
theorem nests_of_none (hnone : m.world.config.maxCallDepth = 0) (hdepth : m.thread.depth = 0)
    {calls : Nat} (hcalls : 0 < calls) (needs : List Nat) (v : Int64) (w : View) (f : FnId)
    (fuel : Nat) : Nests m calls needs v (perform (fuel + 1) (.call w (.fn f)) m) := by
  obtain ⟨x, y, hfull⟩ := perform_full (m := m) (by omega) w f fuel
  rw [hfull, hdepth, ← hnone]
  exact .full (by omega) x y m.thread.results

/-- **Countdowns by plain calls.** -/
theorem nests_of_counts (hf : (m.heap.function f).Recurses) (hn : 0 ≤ n)
    (hdepth : m.thread.depth = 0) (hlive : w.live m = [.fn f, .int n])
    (hfuel : n.toInt.toNat + 12 ≤ fuel) :
    let spans := (m.heap.function f).spans
    Nests m (n.toInt.toNat + 1) (descent spans.1 spans.2 n.toInt.toNat w.base) (100 + n)
      (perform fuel (.call w (.fn f)) m) := by
  have hint : 0 ≤ n.toInt := Int64.le_iff_toInt_le.1 hn
  have hcounts := perform_counts hf hn (by omega) hlive
    (show min _ (m.world.config.maxCallDepth - m.thread.depth) + 12 ≤ fuel by omega)
  generalize perform fuel (.call w (.fn f)) m = r at hcounts
  cases hcounts with
  | returned hroom x y hcapacity => exact .value (by omega) x y hcapacity
  | overflowed hfull x y => exact .full (by omega) x y m.thread.results

/-- **Countdowns by tail calls.** -/
theorem TailLoop.nests {l : TailLoop} (h : l.On m) (hn : 0 ≤ n) (hdepth : m.thread.depth = 0)
    (acc : Int64) (hlive : (⟨0, l.layout.params⟩ : View).live m = l.args n acc)
    (hfuel : n.toInt.toNat + 8 ≤ fuel) : Nests m 1 [l.layout.slots] (acc + n)
      (perform (fuel + 1) (.call ⟨0, l.layout.params⟩ (.fn l.entry)) m) := by
  rcases Nat.eq_zero_or_pos m.world.config.maxCallDepth with hnone | hroom
  · exact nests_of_none hnone hdepth Nat.zero_lt_one ..
  · have hlast : (l.args n acc).getLast? = some (.int acc) := by cases l <;> rfl
    have hin := View.room_of_live hlive hlast nofun
    rw [Nat.zero_add] at hin
    obtain ⟨x, y, hcapacity, hstep⟩ := TailLoop.step_sums h hn hdepth hroom hlive hin
    have hsum : perform (fuel + 1) (.call ⟨0, l.layout.params⟩ (.fn l.entry)) m = _ :=
      hstep (runner fuel (perform fuel)) fuel hfuel (runner_shallow fuel _)
    exact hsum ▸ .value hroom x y hcapacity

/-- **Sums over a callee.** -/
theorem nests_of_sums (hf : m.heap.function f = .routine (.sharedSum (.fn g)))
    (hg : m.heap.function g = .builtin .add3) (hpos : 0 < n) (hn : Fits n)
    (hdepth : m.thread.depth = 0) (hlive : w.live m = [.int n])
    (hfuel : n.toInt.toNat + 2 ≤ fuel) :
    Nests m 2 [w.base + 6] (partialSum n.toInt.toNat)
      (perform (fuel + 1) (.call w (.fn f)) m) := by
  -- There is room for no call, for the sum alone, or for the sum and its callee.
  rcases Nat.lt_trichotomy m.world.config.maxCallDepth 1 with hnone | hone | hroom
  · exact nests_of_none (Nat.lt_one_iff.1 hnone) hdepth Nat.zero_lt_two ..
  · obtain ⟨x, y, hfull⟩ := perform_sums_full hf hpos hlive (by omega)
      (show 1 ≤ fuel by omega)
    exact hfull ▸ .full (by omega) x y m.thread.results
  · obtain ⟨x, y, hcapacity, hsum⟩ := perform_sums hf hg hn hlive (by omega) hfuel
    exact hsum ▸ .value hroom x y hcapacity

/-- **Sums over a handler.** -/
theorem nests_of_adds {c : TableId} {cells : Array CellId}
    (hf : m.heap.function f = .closure Bodies.metaAdd cells)
    (hg : m.heap.function g = .builtin .counterAdd)
    (hh : m.handler? (.table c) .add = some (.fn g))
    (hglobal : m.global? (.str "counter") = some (.table c)) (hpos : 0 < n)
    (hdepth : m.thread.depth = 0) (hlive : w.live m = [.int n])
    (hfuel : 6 * n.toInt.toNat + 9 ≤ fuel) :
    Nests m 2 [w.base + 5, w.base + 7] n (perform (fuel + 1) (.call w (.fn f)) m) := by
  rcases Nat.lt_trichotomy m.world.config.maxCallDepth 1 with hnone | hone | hroom
  · exact nests_of_none (Nat.lt_one_iff.1 hnone) hdepth Nat.zero_lt_two ..
  · obtain ⟨x, y, r, hfull⟩ := perform_adds_full hf hh hglobal hlive hpos (by omega)
      (show 9 ≤ fuel by omega)
    exact hfull ▸ .full (by omega) x y r
  · obtain ⟨x, y, hcapacity, hsum⟩ := perform_adds hf hg hh hglobal hlive hpos (by omega)
      (show 6 * n.toInt.toNat + 6 ≤ fuel by omega)
    exact hsum ▸ .value hroom x y hcapacity

end Requests

end ScriptCore
