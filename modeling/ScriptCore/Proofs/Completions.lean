import ScriptCore.Proofs.Cells
import ScriptCore.Proofs.PausedFunctions

/-!
# Operations that are completed

An operation that calls a function is finished by its body as soon as the function has returned. If
the function was suspended instead, the body is laid out again from its link and finishes the
operation then. Either way the frame goes on behind the operation with the results stored in the
same way (`Landed`): `Invokes.fresh` is about the first, `Invokes.resumed` about the second.
-/

namespace ScriptCore

open Machine Interpreter

variable {F S : Type}

/-! ## Where results land -/

namespace Op

/-- Where an operation whose call leaves the results `rs` puts something, and what it puts there. -/
def outcome (rs : List Val) : Op → Nat × List Val
  | .call func _ (.fixed n) => (func.toNat, (List.range n.toNat).map fun i => rs.getD i .nil)
  | .call func _ .open => (func.toNat, rs)
  | .binary .eq dst _ _ | .binary .lt dst _ _ | .binary .le dst _ _ =>
    (dst.toNat, [.bool (rs.getD 0 .nil).truthy])
  | .binary .ne dst _ _ => (dst.toNat, [.bool !(rs.getD 0 .nil).truthy])
  | .binary _ dst _ _ | .unary _ dst _ | .index dst _ _ | .getGlobal dst _ =>
    (dst.toNat, [rs.getD 0 .nil])
  | _ => (0, [])

/-- The registers behind an operation, if they were `regs` when its call left the results `rs`. -/
def landed (op : Op) (rs : List Val) (regs : Nat → Slot) (r : Nat) : Slot :=
  let (dst, values) := op.outcome rs
  if dst ≤ r ∧ r < dst + values.length then .value (values.getD (r - dst) .nil) else regs r

/-- The live top behind an operation. -/
def topAfter (rs : List Val) (top : Nat) : Op → Nat
  | .call func _ .open => func.toNat + rs.length
  | _ => top

/-- The registers that an operation stores to. -/
def Stores (op : Op) (rs : List Val) (r : Nat) : Prop :=
  (op.outcome rs).1 ≤ r ∧ r < (op.outcome rs).1 + (op.outcome rs).2.length

theorem landed_congr {op : Op} {rs : List Val} {regs regs' : Nat → Slot} {r : Nat}
    (h : ¬ op.Stores rs r → regs r = regs' r) : op.landed rs regs r = op.landed rs regs' r := by
  unfold landed
  dsimp only
  split
  · rfl
  · exact h ‹_›

end Op

/-! ## Inequality -/

theorem BinOp.ne_finish (v : Val) : BinOp.ne.finish v = .bool !(BinOp.eq.finish v).truthy := by
  simp only [finish]
  cases v.truthy <;> rfl

/-- Inequality is the opposite of equality, whoever decides it. -/
theorem arith_ne (P : Perform F S) (scratch : View) (lhs rhs : Val) :
    arith P scratch .ne lhs rhs = (do return .bool !(← arith P scratch .eq lhs rhs).truthy) := by
  unfold arith
  cases hraw : lhs.rawEq rhs with
  | true => simp [BinOp.apply, hraw, orFail, Val.truthy]
  | false =>
    cases htables : lhs.isTable && rhs.isTable with
    | false => simp [BinOp.apply, hraw, htables, orFail, Val.truthy]
    | true =>
      have happly : BinOp.ne.apply lhs rhs = .ok none ∧ BinOp.eq.apply lhs rhs = .ok none := by
        simp [BinOp.apply, hraw, htables]
      simp only [happly.1, happly.2, orFail, BinOp.event, pure_bind, bind_assoc]
      congr 1
      funext h?
      cases h? with
      | none => simp [BinOp.missing, Val.truthy]
      | some h => simp [BinOp.ne_finish]
/-! ## Frames behind an operation -/

/-- Behind the operation at `pc` the frame `f` goes on with the results `rs`, if its registers
were `regs` when the call left them. -/
structure Landed (op : Op) (rs : List Val) (pc : Nat) (f : Frame) (regs : Nat → Slot)
    (s : Active F S) : Prop where
  index : s.frame.index = pc + 1
  slots : s.frame.slots = f.slots
  varargs : s.frame.varargs = f.varargs
  top : s.frame.view.top = op.topAfter rs f.view.top
  results : s.machine.thread.results = .ofValues rs
  registers : ∀ r, r < f.slots ∨ op.Stores rs r → s.register r = op.landed rs regs r

/-- Two activations go on alike. -/
structure GoOnAlike (slots : Nat → Prop) (s s' : Active F S) : Prop where
  index : s'.frame.index = s.frame.index
  varargs : s'.frame.varargs = s.frame.varargs
  top : s'.frame.view.top = s.frame.view.top
  results : s'.machine.thread.results = s.machine.thread.results
  registers : ∀ r, slots r → s'.register r = s.register r

namespace Landed

variable {op : Op} {rs : List Val} {pc : Nat} {f f' : Frame} {regs regs' : Nat → Slot}
variable {s s' : Active F S}

theorem congr (h : Landed op rs pc f regs s) (hslots : f'.slots = f.slots)
    (hvarargs : f'.varargs = f.varargs) (htop : f'.view.top = f.view.top)
    (hregs : ∀ r < f.slots, regs r = regs' r) : Landed op rs pc f' regs' s := by
  refine ⟨h.index, h.slots.trans hslots.symm, h.varargs.trans hvarargs.symm, ?_, h.results,
    fun r hr => ?_⟩
  · rw [h.top, htop]
  · rw [hslots] at hr
    exact (h.registers r hr).trans
      (Op.landed_congr fun hstores => hregs r (hr.resolve_right hstores))

/-- Equal frames go on alike. -/
theorem alike (h : Landed op rs pc f regs s) (h' : Landed op rs pc f regs s') :
    GoOnAlike (fun r => r < f.slots ∨ op.Stores rs r) s s' where
  index := h'.index.trans h.index.symm
  varargs := h'.varargs.trans h.varargs.symm
  top := h'.top.trans h.top.symm
  results := h'.results.trans h.results.symm
  registers r hr := (h'.registers r hr).trans (h.registers r hr).symm

end Landed

/-! ## Completion -/

namespace Interpreter

variable {proto : Proto} {pc : Nat} {op : Op} {rs : List Val} {s : Active F S}

theorem padded_eq (n : Nat) (rs : List Val) :
    padded n rs = (List.range n).map fun i => rs.getD i .nil := by
  apply List.ext_getElem
  · simp [length_padded]
  · intro i hi hi'
    simp only [List.length_map, List.length_range] at hi'
    simp only [padded, List.getElem_map, List.getElem_range, List.getD_eq_getElem?_getD]
    by_cases h : i < rs.length
    · rw [List.getElem_append_left (by simp; omega), List.getElem_take, List.getElem?_eq_getElem h]
      rfl
    · rw [List.getElem_append_right (by simp; omega), List.getElem?_eq_none (by omega)]
      simp

/-- A step stores what `op` stores of the results `rs`, moves the live top as `op` does, and changes
nothing else. -/
def Completes (op : Op) (rs : List Val) (x : Body F S Unit) (s : Active F S) : Prop :=
  ∃ t y, x s = .ok () ⟨{ s.frame with
      view := ⟨s.frame.view.base, op.topAfter rs s.frame.view.top⟩ }, s.machine.restack t y⟩ ∧
    ∀ r, t.slot (s.frame.view.base + r) = op.landed rs s.register r

/-- A span of registers is written. -/
theorem Completes.span {x : Body F S Unit} {dst : Nat} {vs : List Val}
    (houtcome : op.outcome rs = (dst, vs))
    (htop : op.topAfter rs s.frame.view.top = s.frame.view.top)
    (hx : x s = Body.setSlots dst vs s) : Completes op rs x s := by
  obtain ⟨t, y, ht, hregs⟩ := setSlots_registers dst vs s
  refine ⟨t, y, ?_, fun r => ?_⟩
  · rw [hx, ht, htop]
  · rw [hregs, Op.landed, houtcome]
    rfl

/-- A span of registers is written, and the live top is behind it. -/
theorem Completes.openSpan {x : Body F S Unit} {dst : Nat} {vs : List Val}
    (houtcome : op.outcome rs = (dst, vs))
    (htop : op.topAfter rs s.frame.view.top = dst + vs.length)
    (hx : x s = (do Body.setSlots dst vs; Body.setTop (dst + vs.length) : Body F S Unit) s) :
    Completes op rs x s := by
  obtain ⟨t, y, ht, hregs⟩ := setSlots_registers dst vs s
  obtain ⟨y', hset⟩ : ∃ y', Body.setTop (dst + vs.length) ⟨s.frame, s.machine.restack t y⟩ =
      .ok () ⟨{ s.frame with view := ⟨s.frame.view.base, dst + vs.length⟩ },
        s.machine.restack (s.frame.view.growTo t (dst + vs.length)) y'⟩ := ⟨_, rfl⟩
  refine ⟨s.frame.view.growTo t (dst + vs.length), y', ?_, fun r => ?_⟩
  · rw [hx, htop]
    exact (bind_of_ok ht).trans hset
  · rw [View.slot_growTo, hregs, Op.landed, houtcome]
    rfl

/-- **Completion.** With the results of a call in the channel, an operation is completed: what it
stores is where it belongs, and nothing else has changed. -/
theorem complete_lands (hop : proto.code[pc]? = some op) (hmay : op.maySuspend)
    (hrs : s.machine.thread.results = .ofValues rs) : Completes op rs (complete proto pc) s := by
  have hsettled : s.machine.thread.results.pending = none := by rw [hrs]; rfl
  have hvalues : s.machine.thread.results.values = rs := by rw [hrs]; rfl
  have hlist : Body.lift resultList s = .ok rs s := by
    rw [Body.lift_of_ok (resultList_ok hsettled), hvalues]
  have hfirst : Body.lift (result 0) s = .ok (rs.getD 0 .nil) s := by
    rw [Body.lift_of_ok (result_ok hsettled 0), hvalues]
  -- Most operations store one value, made from the first result.
  have hone : ∀ (post : Val → Val) (dst : Nat), op.outcome rs = (dst, [post (rs.getD 0 .nil)]) →
      op.topAfter rs s.frame.view.top = s.frame.view.top → complete proto pc =
        (do Body.setSlot dst (post (← Body.lift (result 0))) : Body F S Unit) →
      Completes op rs (complete proto pc) s := by
    intro post dst houtcome htop hc
    refine .span houtcome htop ?_
    rw [hc]
    exact (bind_of_ok hfirst).trans rfl
  cases op with
  | getGlobal dst name => exact hone id dst.toNat rfl rfl (by simp [complete, hop])
  | index dst object key => exact hone id dst.toNat rfl rfl (by simp [complete, hop])
  | binary op dst lhs rhs =>
    exact hone op.finish dst.toNat (by cases op <;> rfl) rfl (by simp [complete, hop])
  | unary op dst src =>
    cases op with
    | not => cases hmay
    | neg | bnot | len => exact hone id dst.toNat rfl rfl (by simp [complete, hop])
  | setGlobal name src =>
    exact .span (show Op.outcome rs _ = (0, []) from rfl) rfl (by simp [complete, hop]; rfl)
  | newIndex object key value =>
    exact .span (show Op.outcome rs _ = (0, []) from rfl) rfl (by simp [complete, hop]; rfl)
  | call func args results =>
    cases results with
    | fixed n =>
      by_cases hn : n = 0
      · subst hn
        exact .span (show Op.outcome rs _ = (func.toNat, []) from rfl) rfl
          (by simp [complete, hop]; rfl)
      · have hc : complete proto pc = (do
            let values ← Body.lift resultList
            Body.setSlots func.toNat (padded n.toNat values) : Body F S Unit) := by
          simp [complete, hop, hn]
        refine .span (show Op.outcome rs _ = (func.toNat, _) from rfl) rfl ?_
        rw [hc, ← padded_eq]
        exact bind_of_ok hlist
    | «open» =>
      have hc : complete proto pc = (do
          let values ← Body.lift resultList
          Body.setSlots func.toNat values
          Body.setTop (func.toNat + values.length) : Body F S Unit) := by
        simp [complete, hop]
      refine .openSpan rfl rfl ?_
      rw [hc]
      exact bind_of_ok hlist
  | nil | bool | const | move | varInit | varStore | getUpval | setUpval | closure | newTable
  | append | jump | test | tailCall | ret | vararg => cases hmay

end Interpreter

/-! ## Invocations -/

/-- The operation at `pc` invokes the function `g` on the arguments `args`: whatever functions do,
its call comes down to running this one on the machine `u`, and to leaving it. -/
def Invokes [HostBody F S] (function : FnId) (proto : Proto) (pc : Nat) (op : Op) (s : Active F S)
    (g : FnId) (args : View) (u : Machine F S) : Prop :=
  ∃ window target t, Asks function proto pc op s window target t ∧
    ∀ r : Runner F S, invoke r window target t.machine = ensuring (r.run g args) leave u

/-- A function has not touched its window. -/
def Untouched (args : View) (u t : Machine F S) : Prop :=
  ∀ i, args.base ≤ i → t.thread.stack.slot i = u.thread.stack.slot i

/-- The operation at `pc` invokes a function, on the machine `u`, that returns the results `rs` and
does not touch its window. -/
def InvokesReturning [HostBody F S] (n : Nat) (function : FnId) (proto : Proto) (pc : Nat) (op : Op)
    (s : Active F S) (u : Machine F S) (rs : List Val) : Prop :=
  ∃ g args t, Invokes function proto pc op s g args u ∧ Untouched args u t ∧
    runFunction n (perform n) g args u = .ok () t ∧ t.thread.results = .ofValues rs

/-- The operation at `pc` invokes a function, on the machine `u`, that is suspended with `c` and
does not touch its window. -/
def InvokesSuspending [HostBody F S] (n : Nat) (function : FnId) (proto : Proto) (pc : Nat) (op : Op)
    (s : Active F S) (u : Machine F S) (c : Suspension) : Prop :=
  ∃ g args t, Invokes function proto pc op s g args u ∧ Untouched args u t ∧
    runFunction n (perform n) g args u = .error (.suspend c) t

section Engine

variable [HostBody F S] {function g : FnId} {proto : Proto} {pc : Nat} {op : Op}
variable {s : Active F S} {args : View} {u t : Machine F S} {rs : List Val} {n : Nat}

/-- **Invocations.** An operation does the same whatever functions do, or invokes one. -/
theorem invokes_or (function : FnId) (hop : proto.code[pc]? = some op) (s : Active F S) :
    (∃ r, ∀ n, execute (perform (n + 1)) function proto pc op s = r) ∨
      ∃ g args u, Invokes function proto pc op s g args u := by
  obtain ⟨r, hr⟩ | ⟨window, target, t, h⟩ := asks_or function hop s
  · exact .inl ⟨r, fun n => hr _⟩
  · -- a call that fails before a function is entered fails in the same way at every nesting
    have hfails : ∀ e u, (∀ r : Runner F S, invoke r window target t.machine = .error e u) →
        ∃ r, ∀ n, execute (perform (n + 1)) function proto pc op s = r := by
      intro e u hinvoke
      refine ⟨.error e ⟨t.frame, u⟩, fun n => ?_⟩
      rw [h.execute]
      exact bind_of_error (Body.lift_of_error (bind_of_error (hinvoke _)))
    have hconfig : (config : M F S Config) t.machine = .ok t.machine.world.config t.machine := rfl
    cases hresolve : resolve window target t.machine.world.config.maxMetaChain t.machine with
    | error e u =>
      exact .inl (hfails e u fun r => (bind_of_ok hconfig).trans (bind_of_error hresolve))
    | ok found v =>
      obtain ⟨args, u, x, -, hinvoke⟩ := Regime.invoke_resolved hresolve
      by_cases hmax : u.world.config.maxCallDepth ≤ u.thread.depth
      · refine .inl (hfails (.fault (.stackOverflow u.thread.depth)) { u with trace := x } fun r => ?_)
        rw [hinvoke, Regime.counted_eq]
        exact if_pos hmax
      · refine .inr ⟨found.1, args, entered { u with trace := x }, window, target, t, h, fun r => ?_⟩
        rw [hinvoke, Regime.counted_eq]
        exact if_neg hmax

variable [QuietHost F S]

/-- A function changes nothing below its window, so it changes nothing on the stack if it does not
touch its window. -/
theorem Untouched.stack {fuel : Nat} (h : Untouched args u t)
    (ht : EndsIn (runFunction fuel (perform n) g args u) t) (i : Nat) :
    t.thread.stack.slot i = u.thread.stack.slot i := by
  have hagrees : Agrees (Regime.free.bounds [.call g] [] args.base)
      (runFunction fuel (perform n : Perform F S) g args) _ := fun m _ => Regime.free.function_meets
    (fun acts => Regime.free.perform_agrees (fun _ _ _ _ => trivial) n acts) fuel trivial
  have hisolated := hagrees.isolated
  by_cases hi : args.base ≤ i
  · exact h i hi
  · exact (hisolated.kept ht).slot i (Nat.lt_of_not_le hi)

omit [HostBody F S] [QuietHost F S] in
/-- The results are stored in the frame of the operation. -/
theorem complete_landed (hop : proto.code[pc]? = some op) (hmay : op.maySuspend)
    {f : Frame} {regs : Nat → Slot} {s : Active F S} (hindex : s.frame.index = pc + 1)
    (hslots : s.frame.slots = f.slots) (hvarargs : s.frame.varargs = f.varargs)
    (htop : s.frame.view.top = f.view.top) (hrs : s.machine.thread.results = .ofValues rs)
    (hregs : ∀ r < f.slots, s.register r = regs r) :
    ∃ s', complete proto pc s = .ok () s' ∧ Landed op rs pc f regs s' := by
  obtain ⟨t, y, hcomplete, hlanded⟩ := complete_lands hop hmay hrs
  refine ⟨_, hcomplete, hindex, hslots, hvarargs, ?_, hrs, fun r hr => (hlanded r).trans ?_⟩
  · rw [htop]
  · exact Op.landed_congr fun hstores => hregs r (hr.resolve_right hstores)

/-- **Fresh completion.** -/
theorem Invokes.fresh (h : Invokes function proto pc op s g args u)
    (hop : proto.code[pc]? = some op) (hmay : op.maySuspend)
    (hrun : runFunction (n + 1) (perform (n + 1)) g args u = .ok () t)
    (hrs : t.thread.results = .ofValues rs) (huntouched : Untouched args u t) :
    ∃ s', execute (perform (n + 2)) function proto pc op s = .ok (.goto (pc + 1)) s' ∧
      Landed op rs pc s.frame (s.frame.view.slot u.thread.stack) s' := by
  obtain ⟨window, target, v, hasks, hinvoke⟩ := h
  have hstack := huntouched.stack (n := n + 1) (by rw [hrun]; rfl)
  have hcall : perform (n + 2) (.call window target) v.machine = .ok () (leave t) := by
    have hinvoked : invoke (runner (n + 1) (perform (n + 1))) window target v.machine =
        .ok () (leave t) := by
      rw [hinvoke]
      unfold ensuring
      rw [show (runner (n + 1) (perform (n + 1))).run g args u = _ from hrun]
    exact (bind_of_ok hinvoked).trans (drain_values _ _ n hrs)
  have hregs : ∀ r < s.frame.slots, (⟨v.frame, leave t⟩ : Active F S).register r =
      s.frame.view.slot u.thread.stack r := fun r _ => by
    show (leave t).thread.stack.slot (v.frame.view.base + r) = _
    rw [hasks.frame]
    exact hstack _
  obtain ⟨s', hcomplete, hlanded⟩ := complete_landed hop hmay (by rw [hasks.frame])
    (by rw [hasks.frame]) (by rw [hasks.frame]) (by rw [hasks.frame]) hrs hregs
  refine ⟨s', ?_, hlanded⟩
  rw [hasks.execute]
  exact (bind_of_ok (Body.lift_of_ok hcall)).trans (bind_of_ok hcomplete)

omit [QuietHost F S] in
/-- **Suspension.** A suspension of the function suspends the operation, with the frame as it was. -/
theorem Invokes.suspended (h : Invokes function proto pc op s g args u) {c : Suspension}
    (hrun : runFunction n (perform n) g args u = .error (.suspend c) t) :
    execute (perform (n + 1)) function proto pc op s =
      .error (.suspend c) ⟨{ s.frame with index := pc + 1 }, leave t⟩ := by
  obtain ⟨window, target, v, hasks, hinvoke⟩ := h
  have hcall : perform (n + 1) (.call window target) v.machine = .error (.suspend c) (leave t) := by
    refine bind_of_error ?_
    rw [hinvoke]
    unfold ensuring
    rw [show (runner n (perform n)).run g args u = _ from hrun]
  rw [hasks.execute, ← hasks.frame]
  exact bind_of_error (Body.lift_of_error hcall)

/-- **Resumed completion.** A frame that was left behind the operation at `pc` is laid out again on
any window of any machine. If the links below it end with the results `rs` there, the operation is
completed and the frame goes on behind it. -/
theorem reentered_lands (hop : proto.code[pc]? = some op) (hmay : op.maySuspend) {frame : Frame}
    {m : Machine F S} (hindex : frame.index = pc + 1) (hslots : frame.slots = proto.layout.slots)
    {m' : Machine F S} {cells : Array CellId}
    (hfunction : m'.heap.function function = .closure proto cells) (k fuel : Nat)
    (inner : List Link) (values : List Val) (window : View) : ∃ scratch m₁, m₁.heap = m'.heap ∧
      ∀ rs m₂, perform k (.replay inner values scratch) m₁ = .ok () m₂ →
        m₂.thread.results = .ofValues rs → ∃ s',
          reenterFunction fuel (perform k) (linkOf function frame m) inner values window m' =
            runBody function (loop (perform k) function proto fuel (pc + 1)) s'.frame s'.machine ∧
          Landed op rs pc frame (frame.view.slot m.thread.stack) s' := by
  have hbody : (m'.heap.function function).body? fuel (perform k) function =
      some (proto.name, proto.layout, run fuel (perform k) function proto) := by
    rw [hfunction]
    rfl
  obtain ⟨st, x, hst, -, hrun⟩ := reopen_ok (α := Unit) proto.layout window frame.index
    (linkOf function frame m).saved m'
  let again : Frame := ⟨⟨window.base, frame.view.top⟩, frame.index, proto.layout.slots, frame.varargs⟩
  let scratch : View := ⟨window.base + proto.layout.slots, 0⟩
  refine ⟨scratch, m'.restack st x, rfl, fun rs m₂ hreplay hrs => ?_⟩
  have hkept := (Dispatch.run_isolated k scratch (.replay inner values)).kept
    (show EndsIn (perform k (.replay inner values scratch) (m'.restack st x)) m₂ by
      rw [hreplay]
      rfl)
  have hregs : ∀ r < frame.slots, (⟨again, m₂⟩ : Active F S).register r =
      frame.view.slot m.thread.stack r := fun r hr => by
    have hbelow : window.base + r < window.base + proto.layout.slots :=
      Nat.add_lt_add_left (hslots ▸ hr) _
    have hlength : (linkOf function frame m).saved.slots.length = frame.slots :=
      View.length_snapshot ..
    refine (hkept.slot _ hbelow).trans ?_
    rw [restack_stack, hst, View.slot_restore, if_pos (by omega), Nat.add_sub_cancel_left]
    exact View.getD_snapshot _ _ hr
  obtain ⟨s', hcomplete, hlanded⟩ :=
    complete_landed (f := frame) (s := ⟨again, m₂⟩) hop hmay hindex hslots.symm rfl rfl hrs hregs
  refine ⟨s', ?_, hlanded⟩
  have hreenter : reenterFunction fuel (perform k) (linkOf function frame m) inner values window m' =
      reenterBody (perform k) function proto.name proto.layout (run fuel (perform k) function proto)
        window frame.index (linkOf function frame m).saved inner values m' :=
    reenterFunction_body hbody inner values window
  refine hreenter.trans ?_
  rw [reenterBody_eq _ _ _ _ _ _ (hindex ▸ Nat.succ_ne_zero pc), hrun, continueBody_eq, runBody_eq]
  refine congrArg (leaveBody function) ((bind_of_ok (Body.lift_of_ok hreplay)).trans ?_)
  show (if again.index = 0 then _ else _ : Body F S Unit) ⟨again, m₂⟩ = _
  rw [if_neg (show again.index ≠ 0 from hindex ▸ Nat.succ_ne_zero pc)]
  show (complete proto (frame.index - 1) >>= fun _ => loop (perform k) function proto fuel frame.index)
    ⟨again, m₂⟩ = _
  rw [hindex, Nat.add_sub_cancel]
  exact bind_of_ok hcomplete

end Engine

/-! ## Both ways -/

section Engine

variable [HostBody F S] [QuietHost F S] {function : FnId} {proto : Proto} {pc : Nat} {op : Op}
variable {s : Active F S} {u : Machine F S} {n fuel : Nat}

omit [HostBody F S] [QuietHost F S] in
theorem loop_execute (P : Perform F S) (function : FnId) (hop : proto.code[pc]? = some op) (fuel : Nat)
    (s : Active F S) : loop P function proto (fuel + 1) pc s =
      (execute P function proto pc op >>= fun
        | .goto pc => loop P function proto fuel pc
        | .done => pure ()) s := by
  have h := Interpreter.loop.eq_def P function proto (fuel + 1) pc
  simp only [hop] at h
  exact congrFun h s

omit [QuietHost F S] in
/-- The yield function is suspended and does not touch its window. -/
theorem Invokes.yields {g : FnId} {args : View} (h : Invokes function proto pc op s g args u)
    (hg : u.heap.function g = .builtin .yield) (hcurrent : u.thread.current.isSome)
    (hboundaries : u.thread.boundaries = 0) (n : Nat) : InvokesSuspending n function proto pc op s u
      ⟨args.valuesFrom u.thread.stack u.heap.cells 0, []⟩ := by
  have hsome : ¬ u.thread.current.isNone := fun hnone => by
    rw [Option.isNone_iff_eq_none.1 hnone] at hcurrent
    cases hcurrent
  refine ⟨g, args, u, h, fun _ _ => rfl, ?_⟩
  rw [runFunction_builtin hg]
  refine (yieldValues_eq _ _).trans ?_
  rw [if_neg hsome, if_neg (not_not_intro hboundaries)]
  rfl

/-- A frame goes on behind an operation whose function has returned. -/
theorem InvokesReturning.goes_on {rs : List Val}
    (h : InvokesReturning (n + 1) function proto pc op s u rs) (hop : proto.code[pc]? = some op)
    (hmay : op.maySuspend) (fuel : Nat) : ∃ s',
      loop (perform (n + 2)) function proto (fuel + 1) pc s =
        loop (perform (n + 2)) function proto fuel (pc + 1) s' ∧
      Landed op rs pc s.frame (s.frame.view.slot u.thread.stack) s' := by
  obtain ⟨g, args, t, hinvokes, huntouched, hrun, hrs⟩ := h
  obtain ⟨s', hexecute, hlanded⟩ := hinvokes.fresh hop hmay hrun hrs huntouched
  refine ⟨s', ?_, hlanded⟩
  rw [loop_execute _ _ hop]
  exact bind_of_ok hexecute

/-- A frame is left behind an operation whose function is suspended, with a link from which it goes
on. -/
theorem InvokesSuspending.leaves {c : Suspension}
    (h : InvokesSuspending n function proto pc op s u c) (hop : proto.code[pc]? = some op)
    (hmay : op.maySuspend) (hslots : s.frame.slots = proto.layout.slots) (fuel : Nat) :
    ∃ link t, runBody function (loop (perform (n + 1)) function proto (fuel + 1) pc) s.frame s.machine =
        .error (.suspend ⟨c.values, link :: c.chain⟩) t ∧
      ∀ (m : Machine F S) cells, m.heap.function function = .closure proto cells →
        ∀ k fuel values window, ∃ scratch m₁, m₁.heap = m.heap ∧
          ∀ rs m₂, perform k (.replay c.chain values scratch) m₁ = .ok () m₂ →
            m₂.thread.results = .ofValues rs → ∃ s',
              reenterFunction fuel (perform k) link c.chain values window m =
                runBody function (loop (perform k) function proto fuel (pc + 1)) s'.frame s'.machine ∧
              Landed op rs pc s.frame (s.frame.view.slot u.thread.stack) s' := by
  obtain ⟨g, args, t, hinvokes, huntouched, hrun⟩ := h
  have hstack := huntouched.stack (by rw [hrun]; exact ⟨trivial, rfl⟩)
  let left : Frame := { s.frame with index := pc + 1 }
  obtain ⟨x, hleft⟩ := suspendFrame_ok function left c (leave t)
  refine ⟨linkOf function left (leave t), { leave t with trace := x }, ?_,
    fun m cells hfunction k fuel values window => ?_⟩
  · rw [runBody_eq, loop_execute _ _ hop]
    rw [bind_of_error (hinvokes.suspended hrun)]
    exact hleft
  · obtain ⟨scratch, m₁, hheap, hlands⟩ := reentered_lands (m := leave t) hop hmay
      (show left.index = pc + 1 from rfl) hslots hfunction k fuel c.chain values window
    refine ⟨scratch, m₁, hheap, fun rs m₂ hreplay hrs => ?_⟩
    obtain ⟨s', hreenter, hlanded⟩ := hlands rs m₂ hreplay hrs
    exact ⟨s', hreenter, hlanded.congr rfl rfl rfl fun r _ => hstack _⟩

end Engine

/-- **Resumed completion is fresh completion.** An operation that may suspend does the same whatever
functions do, or it invokes one. Let it invoke one that returns `rs`, in one activation, and one that
is suspended, in another with an equal frame, and let neither touch its window. The first activation
goes on behind the operation. The second one is left, and when its link is re-entered, on whatever
machine and window, and what is below it ends with the results `rs`, it goes on behind the operation
as well. Nothing is below it if it was the yield function that was suspended, and then the values of
the resume are the results. Both have the same registers, those that `Landed` tells, and the same
varargs, results and live top. Inequality is the opposite of equality on both ways. -/
theorem resumed_as_fresh :
    (∀ function proto pc op (s : Active Empty PUnit), proto.code[pc]? = some op →
      (∃ r, ∀ n, execute (perform (n + 1)) function proto pc op s = r) ∨
        ∃ g args u, Invokes function proto pc op s g args u) ∧
    (∀ n n' fuel fuel' function proto pc op (s s' : Active Empty PUnit) u u' rs c,
      proto.code[pc]? = some op → op.maySuspend →
      s.frame.slots = proto.layout.slots → s'.frame.slots = proto.layout.slots →
      s'.frame.varargs = s.frame.varargs → s'.frame.view.top = s.frame.view.top →
      (∀ r < s.frame.slots, s'.frame.view.slot u'.thread.stack r =
        s.frame.view.slot u.thread.stack r) →
      InvokesReturning (n + 1) function proto pc op s u rs →
      InvokesSuspending n' function proto pc op s' u' c →
      ∃ fresh, loop (perform (n + 2)) function proto (fuel + 1) pc s =
          loop (perform (n + 2)) function proto fuel (pc + 1) fresh ∧
        Landed op rs pc s.frame (s.frame.view.slot u.thread.stack) fresh ∧
        ∃ link t, runBody function (loop (perform (n' + 1)) function proto (fuel' + 1) pc) s'.frame
            s'.machine = .error (.suspend ⟨c.values, link :: c.chain⟩) t ∧
          ∀ (m : Machine Empty PUnit) cells, m.heap.function function = .closure proto cells →
            ∀ k fuel values window, ∃ scratch m₁, m₁.heap = m.heap ∧
              ∀ m₂, perform k (.replay c.chain values scratch) m₁ = .ok () m₂ →
                m₂.thread.results = .ofValues rs → ∃ resumed,
                  reenterFunction fuel (perform k) link c.chain values window m =
                    runBody function (loop (perform k) function proto fuel (pc + 1)) resumed.frame
                      resumed.machine ∧
                  GoOnAlike (fun r => r < s.frame.slots ∨ op.Stores rs r) fresh resumed) ∧
    (∀ n function proto pc op (s : Active Empty PUnit) g args u,
      Invokes function proto pc op s g args u → u.heap.function g = .builtin .yield →
      u.thread.current.isSome → u.thread.boundaries = 0 → InvokesSuspending n function proto pc op s u
        ⟨args.valuesFrom u.thread.stack u.heap.cells 0, []⟩) ∧
    (∀ n values window (m : Machine Empty PUnit),
      perform (n + 1) (.replay [] values window) m = .ok () (m.withResults values)) ∧
    ∀ (P : Perform Empty PUnit) scratch lhs rhs, arith P scratch .ne lhs rhs =
      (do return .bool !(← arith P scratch .eq lhs rhs).truthy) := by
  refine ⟨fun function proto pc op s hop => invokes_or function hop s,
    fun n n' fuel fuel' function proto pc op s s' u u' rs c hop hmay hslots hslots' hvarargs htop
      hregs hreturns hsuspends => ?_,
    fun n function proto pc op s g args u h hg hcurrent hboundaries => h.yields hg hcurrent hboundaries n,
    fun n values window m => rfl, arith_ne⟩
  obtain ⟨fresh, hfresh, hlanded⟩ := hreturns.goes_on hop hmay fuel
  obtain ⟨link, t, hleft, hagain⟩ := hsuspends.leaves hop hmay hslots' fuel'
  refine ⟨fresh, hfresh, hlanded, link, t, hleft, fun m cells hfunction k fuel values window => ?_⟩
  obtain ⟨scratch, m₁, hheap, hlands⟩ := hagain m cells hfunction k fuel values window
  refine ⟨scratch, m₁, hheap, fun m₂ hreplay hrs => ?_⟩
  obtain ⟨resumed, hreenter, hresumed⟩ := hlands rs m₂ hreplay hrs
  refine ⟨resumed, hreenter, hlanded.alike (hresumed.congr ?_ hvarargs.symm htop.symm ?_)⟩
  · exact hslots.trans hslots'.symm
  · exact fun r hr => hregs r (by rw [hslots, ← hslots']; exact hr)

end ScriptCore
