import ScriptCore.Proofs.AlignedResumes
import ScriptCore.Proofs.PausedCalls

/-!
# Aligned calls

Functions on shared arguments concur, entered (`runFunction_concur`) and re-entered
(`reenterFunction_concur`), and so do the calls around them (`invoke_concur`, `reenter_concur`) and
the tail calls behind those (`drain_concur`). By induction on the nesting every request of aligned
machines is served alike (`served`).
-/

namespace ScriptCore

open Machine

variable {v : Overlap} {d n : Nat} {heard : Prop} {a b : Machine Empty PUnit} {w w' : View}

namespace Aligned

theorem entered (h : Aligned v heard a b)
    (hroom : ¬ a.world.config.maxCallDepth ≤ a.thread.depth) :
    Aligned v heard (entered a) (entered b) :=
  { h with
    depth := congrArg (· + 1) h.depth
    chains := { h.chains with depth := Nat.lt_of_not_le hroom } }

theorem leave (h : Aligned v heard a b) : Aligned v heard (leave a) (leave b) :=
  { h with
    depth := congrArg (· - 1) h.depth
    chains := { h.chains with depth := Nat.le_trans (Nat.sub_le ..) h.chains.depth } }

end Aligned

/-! ## Functions -/

section Engine

variable {fuel : Nat} (hserved : Served (perform fuel))

include hserved

/-- **Functions.** A function of shared arguments. -/
theorem runFunction_concur (f : FnId) (h : Aligned v heard a b) (hw : v.Hands d n w w')
    (hprovides : ∀ i, (a.heap.function f).arity.Provides i → i < n) :
    Concur (Astray v) (fun _ _ => Aligned v True) (runFunction fuel (perform fuel) f w a)
      (runFunction fuel (perform fuel) f w' b) := by
  unfold runFunction
  rw [functionAt_bind, functionAt_bind, ← h.function_eq f]
  have hstandard := h.standard f
  generalize a.heap.function f = c at hstandard hprovides
  cases c with
  | closure p cells => exact enterBody_concur hserved hstandard h hw fuel
  | builtin c => exact runBuiltin_concur hserved c h hw hprovides
  | protectedCall p => exact protectedCall_concur hserved f p h hw
  | wrapped co => exact callWrapped_concur hserved co h hw
  | routine r => exact hstandard.elim
  | host e => exact e.elim

/-- A function that a suspension left. -/
theorem reenterFunction_concur {link : Link} (h : Aligned v heard a b) (hw : v.Based d w w')
    (hlink : a.Fits link) {inner : List Link} (hinner : ∀ link ∈ inner, a.Fits link)
    (values : List Val) :
    Concur (Astray v) (fun _ _ => Aligned v True)
      (reenterFunction fuel (perform fuel) link inner values w a)
      (reenterFunction fuel (perform fuel) link inner values w' b) := by
  obtain ⟨f, index, saved⟩ := link
  unfold reenterFunction
  dsimp only
  rw [functionAt_bind, functionAt_bind, ← h.function_eq f]
  have hstandard := h.standard f
  have hleaves : (a.heap.function f).Leaves index saved := hlink
  generalize a.heap.function f = c at hstandard hleaves
  cases c with
  | closure p cells =>
    exact reenterBody_concur hserved hstandard h hw fuel hleaves.1 hleaves.2 hinner values
  | protectedCall p => exact resumeProtected_concur hserved f p h hw index saved hinner values
  | routine r => exact hstandard.elim
  | builtin | wrapped | host => exact hleaves.elim

/-! ## Calls -/

omit hserved in
/-- What is counted in and out as a call. -/
theorem counted_concur {x y : M Empty PUnit Unit} (h : Aligned v heard a b)
    (hxy : Aligned v heard (Machine.entered a) (Machine.entered b) →
      Concur (Astray v) (fun _ _ => Aligned v True) (x (Machine.entered a))
        (y (Machine.entered b))) :
    Concur (Astray v) (fun _ _ => Aligned v True) ((do enter; ensuring x leave) a)
      ((do enter; ensuring y leave) b) := by
  rw [Regime.counted_eq, Regime.counted_eq, ← h.world.limits.depth, ← h.depth]
  by_cases hroom : a.world.config.maxCallDepth ≤ a.thread.depth
  · rw [if_pos hroom, if_pos hroom]
    exact ⟨rfl, h.astray⟩
  · rw [if_neg hroom, if_neg hroom]
    have hends := hxy (h.entered hroom)
    unfold ensuring
    cases hx : x (entered a) <;> cases hy : y (entered b) <;> rw [hx, hy] at hends
    · exact hends.leave
    · exact hends.elim
    · exact hends.elim
    · exact ⟨hends.1, hends.2.leave⟩

/-- **Calls.** A call of one value with shared arguments. -/
theorem invoke_concur (target : Val) (h : Aligned v heard a b) (hw : v.Hands d n w w') :
    Concur (Astray v) (fun _ _ => Aligned v True) (invoke (runner fuel (perform fuel)) w target a)
      (invoke (runner fuel (perform fuel)) w' target b) := by
  obtain ⟨rfl, rfl, hlive⟩ := hw
  let o := v.origin d heard a b
  unfold invoke
  refine .steps rfl rfl ?_
  rw [← h.world.limits.chain]
  refine h.afterWindows (h.windows hlive) (resolve_paired (o := o) target _)
    fun found found' a' b' hfound => ?_
  obtain ⟨f, _⟩ := found
  obtain ⟨_, _⟩ := found'
  obtain ⟨rfl, k, rfl, rfl, hwindows⟩ := hfound
  dsimp only
  rw [functionAt_bind, functionAt_bind, ← (hwindows.kin.functions f).arity_eq]
  -- shaping leaves the heap alone, so the function still has the arity it is shaped to
  have hshape := shape_paired (o := o) (a'.heap.function f).arity a' b' hwindows
  obtain ⟨j, s, x, ha⟩ := shape_ok (a'.heap.function f).arity ⟨o.leftBase, k⟩ a'
  obtain ⟨j', s', x', hb⟩ := shape_ok (a'.heap.function f).arity ⟨o.rightBase, k⟩ b'
  rw [ha, hb] at hshape
  obtain ⟨j, hargs, hargs', hprovides, hwindows⟩ := hshape
  cases hargs
  cases hargs'
  obtain ⟨t, ht⟩ := record_ok (a'.restack s x) fun _ =>
    .invoke (a'.heap.function f).name j a'.thread.depth
  obtain ⟨t', ht'⟩ := record_ok (b'.restack s' x') fun _ =>
    .invoke (b'.heap.function f).name j b'.thread.depth
  refine .steps ha hb (.steps rfl rfl (.steps ht ht' ?_))
  have hshared : Aligned (v.adding d (· < j)) heard (a'.restack s x) (b'.restack s' x') :=
    (h.go hwindows.toParted).adding hwindows.slots
  have hcounted := counted_concur (hshared.setTrace t t') fun h =>
    runFunction_concur hserved f h ⟨rfl, rfl, fun i hi => .inr ⟨i, hi, rfl⟩⟩ hprovides
  exact hcounted.mono (fun _ _ _ h => h.without) fun _ _ _ _ h => h.without

/-- Pending tail calls. -/
theorem drain_concur (l : Nat) (h : Aligned v True a b) (hw : v.Based d w w') :
    Concur (Astray v) (fun _ _ => Aligned v True) (drain (runner fuel (perform fuel)) w l a)
      (drain (runner fuel (perform fuel)) w' l b) := by
  induction l generalizing a b w w' with
  | zero => exact ⟨rfl, h.astray⟩
  | succ l ih =>
    have hears := Aligned.hears v
    unfold drain
    refine h.seq (takeTailCall_inStep (Aligned.closed v True) hears) fun target? a b h => ?_
    cases target? with
    | none => exact h
    | some target =>
      refine h.after (hear_inStep hears) fun m m' a b hm => ?_
      obtain ⟨hresults, h⟩ := hm
      rw [← hresults]
      refine h.load hw m.thread.results.values fun w w' a b hbased hw h => ?_
      obtain ⟨t, ht⟩ := record_ok a fun _ =>
        .tailCall target.kind m.thread.results.values.length
      obtain ⟨t', ht'⟩ := record_ok b fun _ =>
        .tailCall target.kind m.thread.results.values.length
      refine .steps ht ht' ?_
      have hinvoked := invoke_concur hserved target (h.setTrace t t') hw
      exact (hinvoked.mono (fun _ _ _ h => h.without) fun _ _ _ _ h => h.without).bind
        fun _ _ a b h => ih h hbased

/-- A link that is re-entered. -/
theorem reenter_concur {link : Link} (h : Aligned v heard a b) (hw : v.Based d w w')
    (hlink : a.Fits link) {inner : List Link} (hinner : ∀ link ∈ inner, a.Fits link)
    (values : List Val) :
    Concur (Astray v) (fun _ _ => Aligned v True)
      (reenter (runner fuel (perform fuel)) link inner values w a)
      (reenter (runner fuel (perform fuel)) link inner values w' b) := by
  obtain ⟨t, ht⟩ := record_ok a fun _ =>
    .replay (a.heap.function link.function).name link.index inner.length
  obtain ⟨t', ht'⟩ := record_ok b fun _ =>
    .replay (b.heap.function link.function).name link.index inner.length
  unfold reenter
  refine .steps rfl rfl (.steps ht ht' ?_)
  exact counted_concur (h.setTrace t t') fun h =>
    reenterFunction_concur hserved h hw hlink hinner values

end Engine

/-- **Requests.** Requests that hand over the same to aligned machines concur, with any fuel. -/
theorem served (fuel : Nat) : Served (perform fuel) := by
  -- What a function asks for is served with less fuel.
  induction fuel with
  | zero => exact fun h _ => ⟨rfl, h.astray⟩
  | succ fuel ih =>
    intro v heard a b request request' h hasks
    cases hasks with
    | call hw target =>
      exact (invoke_concur ih target h hw).bind fun _ _ a b h => drain_concur ih fuel h hw.based
    | replay hw hfits values =>
      rename_i links
      cases links with
      | nil => exact h.answers (giveAll_answers (Aligned.closed v heard) values)
      | cons link inner =>
        have hreenter := reenter_concur ih h hw (hfits link List.mem_cons_self)
          (fun l hl => hfits l (List.mem_cons_of_mem link hl)) values
        exact hreenter.bind fun _ _ a b h => drain_concur ih fuel h hw

end ScriptCore
