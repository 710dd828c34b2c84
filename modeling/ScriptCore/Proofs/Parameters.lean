import ScriptCore.Proofs.Isolation

/-!
# Parameters

A call hands over registers of its caller in place. On its way to a body each `__call` handler puts
a value in front of them, and the body gets as many as it has parameters (`invoke_hands`); what is
then in a parameter of the new frame is what is in the register of the caller
(`parameters_are_registers`), be it a value or the cell of a captured variable.

So an argument is passed by value if its register holds a value. If it holds a cell, the callee
reads the variable of its caller, also after a closure has assigned to it
(`parameter_follows_variable`). Tail calls and yields pass the values.
-/

namespace ScriptCore

open Machine

/-- What a call hands over in slot `i`: the values of handlers in front, then the live slots of a
window, and nil behind them. -/
def View.handed (w : View) (s : Stack) (front : List Val) (i : Nat) : Slot :=
  if i < front.length then .value (front.getD i .nil)
  else if i < front.length + w.top then w.slot s (i - front.length)
  else .nil

namespace View

variable {w : View} {s : Stack} {i : Nat}

theorem handed_nil : w.handed s [] i = if i < w.top then w.slot s i else .nil := by
  simp [handed]

/-- A value that is put in front is handed over behind those that are put in front of it. -/
theorem handed_insertFront (x : Val) (front : List Val) :
    (w.insertFront s x).1.handed (w.insertFront s x).2 front i = w.handed s (front ++ [x]) i := by
  unfold handed
  rw [insertFront_fst, slot_eq, slot_insertFront, List.length_append, List.length_singleton]
  dsimp only
  by_cases hfront : i < front.length
  · rw [if_pos hfront, if_pos (by omega), List.getD_eq_getElem?_getD, List.getD_eq_getElem?_getD,
      List.getElem?_append_left hfront]
  rw [if_neg hfront]
  by_cases hx : i = front.length
  · subst hx
    rw [if_pos (by omega), if_pos (by omega), if_pos (by omega), List.getD_eq_getElem?_getD,
      List.getElem?_concat_length]
    rfl
  · rw [if_neg (show ¬ i < front.length + 1 by omega)]
    by_cases htop : i < front.length + (w.top + 1)
    · rw [if_pos htop, if_neg (by omega), if_pos (by omega), if_pos (by omega), slot_eq,
        show w.base + (i - front.length) - 1 = w.base + (i - (front.length + 1)) by omega]
    · rw [if_neg htop, if_neg (by omega)]

/-- Adapting a window to a number of slots keeps what it hands over in them. -/
theorem handed_fit {n : Nat} (hi : i < n) :
    (w.fit s n).1.handed (w.fit s n).2 [] i = w.handed s [] i := by
  rw [handed_nil, handed_nil, fit_fst, slot_eq, slot_fit]
  dsimp only
  rw [if_pos hi]
  by_cases htop : i < w.top
  · rw [if_neg (by omega), if_pos htop, slot_eq]
  · rw [if_pos (by omega), if_neg htop]

end View

variable {F S : Type}

namespace Machine

/-! ## On the way to a body -/

section Ways

/-- Following handlers puts the value before each of them in front of the arguments. -/
theorem resolve_handed [HostFunction F] {w : View} {target : Val} {limit : Nat} {f : FnId} {w' : View}
    {m t : Machine F S} (h : resolve w target limit m = .ok (f, w') t) :
    ∃ front, ∀ i, w'.handed t.thread.stack [] i = w.handed m.thread.stack front i := by
  induction limit generalizing w target m with
  | zero =>
    unfold resolve at h
    split at h
    · cases h
      exact ⟨[], fun _ => rfl⟩
    · obtain ⟨handler?, u, -, h⟩ := ok_of_bind h
      cases handler? <;> cases h
  | succ limit ih =>
    unfold resolve at h
    split at h
    · cases h
      exact ⟨[], fun _ => rfl⟩
    · obtain ⟨handler?, u, hu, h⟩ := ok_of_bind h
      have hstill := (still_of_inStep (metamethod_inStep (Abreast.closed m) target .call)).1 _ _ hu
      cases handler? with
      | none => cases h
      | some handler =>
        obtain ⟨x, hx⟩ := record_ok u fun _ => .callHandler target.kind
        replace h := (bind_of_ok hx).symm.trans h
        obtain ⟨x', hx'⟩ := onStack_ok (w.insertFront · target) { u with trace := x }
        replace h := (bind_of_ok hx').symm.trans h
        obtain ⟨front, hfront⟩ := ih h
        refine ⟨front ++ [target], fun i => ?_⟩
        rw [hfront, ← View.handed_insertFront, ← hstill.stack]
        rfl

/-- Shaping the arguments to the arity of a body keeps those that are parameters. -/
theorem shape_handed {w w' : View} {layout : Layout} {m t : Machine F S}
    (h : shape layout.arity w m = .ok w' t) {i : Nat} (hi : i < layout.params) :
    w'.handed t.thread.stack [] i = w.handed m.thread.stack [] i := by
  unfold Layout.arity Arity.ofParams at h
  split at h
  · cases h
    rfl
  · split at h
    · obtain ⟨x, hx⟩ := onStack_ok (w.fit · layout.params) m
      cases hx.symm.trans h
      exact View.handed_fit hi
    · cases h
      rfl

/-- A fresh frame has what its window hands over as parameters. -/
theorem openFrame_handed {layout : Layout} {w : View} {m t : Machine F S} {frame : Frame}
    (h : openFrame layout w m = .ok frame t) {i : Nat} (hi : i < layout.params) :
    frame.view.slot t.thread.stack i = w.handed m.thread.stack [] i := by
  obtain ⟨x, hx⟩ := openFrame_ok layout w m
  cases hx.symm.trans h
  have hfit := View.handed_fit (w := w) (s := m.thread.stack) hi
  rw [View.handed_nil, View.fit_fst, if_pos hi] at hfit
  rw [← hfit, View.slot_eq, restack_stack, View.slot_clearRange]
  exact if_neg (by dsimp only; omega)

end Ways

/-! ## Calls -/

/-- What a call hands to a function, whatever functions do: it comes to run one on a window that
holds, as far as parameters go, what its own window does behind the values of handlers. -/
theorem invoke_hands [HostBody F S] (w : View) (target : Val) (m : Machine F S) :
    (∃ e t, ∀ r, invoke r w target m = .error e t) ∨
    ∃ f args u front, (∀ r, invoke r w target m = ensuring (r.run f args) leave u) ∧
      ∀ layout : Layout, (u.heap.function f).arity = layout.arity → ∀ i < layout.params,
        args.handed u.thread.stack [] i = w.handed m.thread.stack front i := by
  have hconfig : (config : M F S Config) m = .ok m.world.config m := rfl
  cases hresolve : resolve w target m.world.config.maxMetaChain m with
  | error e t => exact .inl ⟨e, t, fun r => (bind_of_ok hconfig).trans (bind_of_error hresolve)⟩
  | ok found t =>
    obtain ⟨f, w₁⟩ := found
    obtain ⟨front, hfront⟩ := resolve_handed hresolve
    obtain ⟨args, u, x, hshape, hcounted⟩ := Regime.invoke_resolved hresolve
    simp only [Regime.counted_eq] at hcounted
    by_cases hroom : u.world.config.maxCallDepth ≤ u.thread.depth
    · simp only [if_pos hroom] at hcounted
      exact .inl ⟨_, _, hcounted⟩
    · simp only [if_neg hroom] at hcounted
      refine .inr ⟨f, args, entered { u with trace := x }, front, hcounted, fun layout harity i hi => ?_⟩
      obtain ⟨k, s, y, hok⟩ := shape_ok (t.heap.function f).arity w₁ t
      cases hok.symm.trans hshape
      have harity : (t.heap.function f).arity = layout.arity := harity
      rw [harity] at hshape
      exact (shape_handed hshape hi).trans (hfront i)

end Machine

namespace Interpreter

/-- The window of a call lies behind the register of the callee, and all registers are as
before. -/
theorem prepare_call {function : FnId} {proto : Proto} {pc : Nat} {func : Reg}
    {args results : Count} {s t : Active F S} {w : View} {target : Val} [HostFunction F]
    (h : prepare function proto pc (.call func args results) s = .ok (.ask w target) t) :
    w.base = s.frame.view.base + (func.toNat + 1) ∧
      ∀ i, t.machine.thread.stack.slot i = s.machine.thread.stack.slot i := by
  obtain ⟨callee, h⟩ := Body.getSlot_ok h
  obtain ⟨last, h⟩ := span_ok (next_ok h)
  cases h
  exact ⟨rfl, fun i => Stack.slot_growTo ..⟩

/-- **Parameters are registers.** Whatever functions do, a call fails before it runs one, or the
fresh frame of the body that it runs has as parameters what handlers put in front, then the
registers of the caller behind the callee as they are, and nil behind them. -/
theorem parameters_are_registers [HostBody F S] {function : FnId} {proto : Proto} {pc : Nat}
    {func : Reg} {args results : Count} {s t : Active F S} {w : View} {target : Val}
    (h : prepare function proto pc (.call func args results) s = .ok (.ask w target) t) :
    (∃ e u, ∀ r, invoke r w target t.machine = .error e u) ∨
    ∃ (f : FnId) (window : View) (u : Machine F S) (front : List Val),
      (∀ r, invoke r w target t.machine = ensuring (r.run f window) leave u) ∧
      ∀ layout : Layout, (u.heap.function f).arity = layout.arity →
        ∃ frame v, openFrame layout window u = .ok frame v ∧ ∀ i < layout.params,
          frame.view.slot v.thread.stack i =
            if i < front.length then .value (front.getD i .nil)
            else if i < front.length + w.top then
              s.frame.view.slot s.machine.thread.stack (func.toNat + 1 + (i - front.length))
            else .nil := by
  obtain ⟨hbase, hslots⟩ := prepare_call h
  refine (invoke_hands w target t.machine).imp id ?_
  rintro ⟨f, window, u, front, hrun, hhands⟩
  refine ⟨f, window, u, front, hrun, fun layout harity => ?_⟩
  obtain ⟨x, hopen⟩ := openFrame_ok layout window u
  refine ⟨_, _, hopen, fun i hi => ?_⟩
  rw [openFrame_handed hopen hi, hhands layout harity i hi]
  unfold View.handed
  rw [View.slot_eq, View.slot_eq, hslots, hbase, Nat.add_assoc _ (func.toNat + 1)]

/-- The activation of a caller. The function in register 1 has one parameter, and what is in
register 2 is a captured variable. -/
def captured : Active Empty PUnit where
  frame := ⟨⟨0, 3⟩, 0, 3, []⟩
  machine :=
    { start ⟨#[], #[.str "old"], #[.closure { Proto.ofName "callee" with params := 1, slots := 1 } #[]],
        #[]⟩ ⟨200, 3, 100⟩ none ⟨⟩ with
      thread := ⟨.empty, ⟨#[.nil, .value (.fn ⟨0⟩), .cell ⟨0⟩]⟩, 0, 0, none⟩ }

/-- Called with register 2, the function has the cell of the variable as parameter. -/
theorem parameters_are_registers_captured :
    prepare ⟨1⟩ (.ofName "caller") 0 (.call 1 (.fixed 1) .open) captured =
      .ok (.ask ⟨2, 1⟩ (.fn ⟨0⟩)) ⟨{ captured.frame with index := 1 }, captured.machine⟩ ∧
    ((∃ e u, ∀ r, invoke r ⟨2, 1⟩ (.fn ⟨0⟩) captured.machine = .error e u) ∨
    ∃ (f : FnId) (window : View) (u : Machine Empty PUnit) (front : List Val),
      (∀ r, invoke r ⟨2, 1⟩ (.fn ⟨0⟩) captured.machine = ensuring (r.run f window) leave u) ∧
      ∀ layout : Layout, (u.heap.function f).arity = layout.arity →
        ∃ frame v, openFrame layout window u = .ok frame v ∧ ∀ i < layout.params,
          frame.view.slot v.thread.stack i =
            if i < front.length then .value (front.getD i .nil)
            else if i < front.length + 1 then
              captured.frame.view.slot captured.machine.thread.stack (1 + 1 + (i - front.length))
            else .nil) :=
  have h : prepare ⟨1⟩ (.ofName "caller") 0 (.call 1 (.fixed 1) .open) captured =
      .ok (.ask ⟨2, 1⟩ (.fn ⟨0⟩)) ⟨{ captured.frame with index := 1 }, captured.machine⟩ := rfl
  ⟨h, parameters_are_registers h⟩

end Interpreter

/-! ## A parameter that changes -/

namespace Proto

/-- Assigns to a captured variable. -/
def assigning : Proto :=
  { ofName "assigning" with
    slots := 1
    constants := #[.str "new"]
    code := #[.const 0 0, .setUpval 0 0, .ret 0 (.fixed 0)]
    upvalues := [⟨"x", .slot 2⟩] }

/-- Calls its second parameter, and then returns its first one. -/
def tardy : Proto :=
  { ofName "tardy" with
    params := 2
    slots := 2
    code := #[.call 1 (.fixed 0) (.fixed 0), .ret 0 (.fixed 1)] }

/-- Hands a variable and a function that assigns to it to `tardy`, by some operation. -/
def passing (op : Op) : Proto :=
  { ofName "passing" with
    slots := 4
    reified := #[false, false, true]
    constants := #[.str "old"]
    code := #[.const 0 0, .varInit 2 0, .closure 1 1, .closure 3 0, op, .ret 1 (.fixed 1)]
    children := [assigning, tardy] }

end Proto

namespace Machine

/-- What a body returns that is checked, loaded, and called on a new machine. -/
def returned (p : Proto) : List Val :=
  match (do callFromOutside (perform 9) (← loadProto p) [] : M Empty PUnit (List Val))
      (start .empty ⟨200, 16, 100⟩ none ⟨⟩) with
  | .ok values _ => values
  | .error _ _ => []

/-- A function that is called in place sees a later assignment to the variable that it was called
with. If it is called by a tail call, it keeps the value that the variable had. -/
theorem parameter_follows_variable :
    returned (.passing (.call 1 (.fixed 2) (.fixed 1))) = [.str "new"] ∧
      returned (.passing (.tailCall 1 (.fixed 2))) = [.str "old"] := by
  decide +kernel

end Machine

end ScriptCore
