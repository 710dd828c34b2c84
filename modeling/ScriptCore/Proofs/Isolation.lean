import ScriptCore.Proofs.Requests

/-!
# Frames are isolated

No operation on a window changes a slot below it, however it ends (`Dispatch.run_isolated`), so
the registers of a frame below the window of a nested call survive the call. They survive it as
well if the call suspends and goes on later, after any number of resumes, on the frame laid out
anywhere else on the stack (`Rounds.regs`). `frames_isolated` puts both together.
-/

namespace ScriptCore

open Machine

variable {F S : Type} {α : Type}

/-! ## Operations on a window -/

/-- A step that changes no slot below a base and does not shrink the stack. -/
def Isolated (base : Nat) (x : M F S α) : Prop := ∀ m, match x m with
  | .ok _ t => Stack.KeptBelow base m.thread.stack t.thread.stack
  | .error e t => e.Regular → Stack.KeptBelow base m.thread.stack t.thread.stack

/-- What the machine can do on a window. -/
inductive Dispatch
  | call (target : Val)
  | callWith (target : Val) (args : List Val)
  | callNonresumable (target : Val) (name : String)
  | index (object key : Val)
  | newIndex (object key value : Val)
  | arith (op : BinOp) (lhs rhs : Val)
  | unary (op : UnOp) (v : Val)
  | replay (links : List Link) (values : List Val)
  | resume (co : CoId) (args : List Val)

/-- Does one of these, for its effect. -/
def Dispatch.run (P : Perform F S) (window : View) : Dispatch → M F S Unit
  | .call target => P (.call window target)
  | .callWith target args => Machine.callWith P window target args
  | .callNonresumable target name => Machine.callNonresumable P window target name
  | .index object key => do let _ ← Machine.index P window object key
  | .newIndex object key value => Machine.newIndex P window object key value
  | .arith op lhs rhs => do let _ ← Machine.arith P window op lhs rhs
  | .unary op v => do let _ ← Machine.unary P window op v
  | .replay links values => P (.replay links values window)
  | .resume co args => do let _ ← Machine.resume P window co args

/-- The watch that checks nothing. -/
def Watch.free : Watch F S := ⟨fun _ _ => True, fun _ => True, pure ()⟩

/-- The regime that asks for nothing. -/
def Regime.free : Regime (Watch.free : Watch F S) where
  inv _ _ := True
  lost _ _ _ := True
  permits _ _ := True
  within _ := trivial
  quiet _ _ := trivial
  lost_quiet _ _ := trivial
  host _ _ := trivial
  enter _ _ _ := trivial
  leave _ := trivial
  lost_leave _ := trivial
  enterBoundary _ := trivial
  leaveBoundary _ := trivial
  yield _ _ _ _ := trivial
  yieldNative _ _ _ _ := trivial
  permits_yield _ := trivial
  link _ _ := trivial
  permits_boundary := trivial
  permits_link _ := trivial
  create _ _ := trivial
  resume _ _ := trivial
  permits_resume := trivial
  returned _ _ := trivial
  yielded _ _ _ := trivial

section Dispatch

/-- What keeps to the bounds of a regime is isolated. -/
theorem Agrees.isolated {acts permitted : List Activity} {base : Nat} {x y : M F S α}
    (h : Agrees (Regime.free.bounds acts permitted base) x y) : Isolated base x := by
  intro m
  have h := h m trivial
  cases hx : x m with
  | ok a t =>
    rw [hx] at h
    exact h.2.2.stack
  | error e t =>
    rw [hx] at h
    cases e with
    | suspend s => exact fun _ => h.2.2.stack
    | fault f => exact fun _ => h.2.2.2.stack
    | overflow => exact False.elim
    | exhausted => exact False.elim

variable [HostBody F S] {W : Watch F S} (G : Regime W) {acts : List Activity} {P P' : Perform F S}

theorem Regime.answer_agrees (hP : G.Serves acts P P') (window : View) (post : Val → Val)
    (intent : Intent) : Agrees (G.bounds acts acts window.base) (answer P window post intent)
      (answer P' window post intent) := by
  cases intent with
  | value v => exact Agrees.pure v
  | ask handler args =>
    refine Agrees.bind (Agrees.bind (G.callWith_agrees hP window handler args) fun _ => ?_)
      fun _ => Agrees.pure _
    exact G.still (V := Eq) fun m => result_inStep (Abreast.hears m) 0

theorem Regime.enact_agrees (hP : G.Serves acts P P') (window : View) (intent : Intent) :
    Agrees (G.bounds acts acts window.base) (enact P window intent) (enact P' window intent) := by
  cases intent with
  | value v => exact Agrees.pure _
  | ask handler args => exact G.callWith_agrees hP window handler args

/-- Operations keep a regime, whatever watches them. -/
theorem Regime.dispatch_agrees {PW : List Activity → Perform F S}
    (hP : ∀ acts, G.Serves acts P (PW acts)) (window : View) (d : Dispatch) :
    ∃ y, Agrees (G.bounds acts acts window.base) (d.run P window) y := by
  have hvalue : ∀ {x : M F S Val} {plan : M F S Intent} {post : Val → Val},
      x = plan >>= answer P window post →
      (∀ m, InStep (Abreast m) Eq plan plan) →
      ∃ y, Agrees (G.bounds acts acts window.base) (do let _ ← x) y := by
    intro x plan post hx hplan
    refine ⟨do let _ ← plan >>= answer (PW acts) window post, ?_⟩
    rw [hx]
    exact ((G.still hplan).bind (G.answer_agrees (hP acts) window post)).bind fun _ =>
      Agrees.pure _
  cases d with
  | call target => exact ⟨_, hP acts (.call window target)⟩
  | callWith target args => exact ⟨_, G.callWith_agrees (hP acts) window target args⟩
  | callNonresumable target name =>
    exact ⟨_, G.callNonresumable_agrees (hP _) window target name⟩
  | index object key =>
    exact hvalue (index_eq ..) fun m => planIndex_inStep (Abreast.closed m) object key
  | newIndex object key value =>
    refine ⟨planNewIndex object key value >>= enact (PW acts) window, ?_⟩
    rw [Dispatch.run, newIndex_eq]
    exact (G.still fun m => planNewIndex_inStep (Abreast.closed m) object key value).bind
      (G.enact_agrees (hP acts) window)
  | arith op lhs rhs =>
    exact hvalue (arith_eq ..) fun m => planArith_inStep (Abreast.closed m) op lhs rhs
  | unary op v => exact hvalue (unary_eq ..) fun m => planUnary_inStep (Abreast.closed m) op v
  | replay links values => exact ⟨_, hP acts (.replay links values window)⟩
  | resume co args =>
    exact ⟨_, (G.resume_agrees (hP _) window args).bind fun _ => Agrees.pure _⟩

/-- **Operations are isolated.** No operation changes a slot below its window. -/
theorem Dispatch.run_isolated [QuietHost F S] (n : Nat) (window : View) (d : Dispatch) :
    Isolated window.base (d.run (perform n : Perform F S) window) := by
  let G : Regime (Watch.free : Watch F S) := .free
  have h : ∃ y, Agrees (G.bounds [] [] window.base) (d.run (perform n) window) y :=
    G.dispatch_agrees (fun acts => G.perform_agrees (fun _ _ _ _ => trivial) n acts) window d
  exact h.choose_spec.isolated

end Dispatch

/-! ## Registers of a frame -/

namespace Body

theorem getSlot_ok {β : Type} {i : Nat} {f : Val → Body F S β} {s t : Active F S} {b : β}
    (h : (getSlot i >>= f) s = .ok b t) : ∃ v, f v s = .ok b t := ⟨_, h⟩

theorem lift_ok {x : M F S α} {a : α} {s t : Active F S} (h : lift x s = .ok a t) :
    x s.machine = .ok a t.machine ∧ t.frame = s.frame := by
  simp only [lift] at h
  cases hx : x s.machine with
  | ok b m => rw [hx] at h; cases h; exact ⟨rfl, rfl⟩
  | error e m => rw [hx] at h; cases h

theorem lift_error {x : M F S α} {e : Unwind} {s t : Active F S} (h : lift x s = .error e t) :
    x s.machine = .error e t.machine ∧ t.frame = s.frame := by
  simp only [lift] at h
  cases hx : x s.machine with
  | ok b m => rw [hx] at h; cases h
  | error e m => rw [hx] at h; cases h; exact ⟨rfl, rfl⟩

theorem scratch_ok {w : View} {s t : Active F S} (h : scratch s = .ok w t) :
    w.base = s.frame.view.base + s.frame.slots ∧ t.frame = s.frame ∧
      Stack.KeptBelow w.base s.machine.thread.stack t.machine.thread.stack := by
  cases h
  exact ⟨rfl, rfl, View.keptBelow_growTo (s.frame.view.child s.frame.slots) _ 0⟩

end Body

namespace Interpreter

variable [HostFunction F]

/-- A look-up or an operator calls on a window above the slots of the frame. -/
theorem ask_kept {pc : Nat} {x : M F S Intent} {store : Val → Body F S Unit} {s t : Active F S}
    {w : View} {target : Val} (hx : ∀ m, InStep (Abreast m) Eq x x)
    (h : (do
      Body.setIndex (pc + 1)
      let scratch ← Body.scratch
      let intent ← Body.lift x
      follow pc scratch store intent) s = .ok (.ask w target) t) :
    t.frame = { s.frame with index := pc + 1 } ∧
      w.base = s.frame.view.base + s.frame.slots ∧
      Stack.KeptBelow w.base s.machine.thread.stack t.machine.thread.stack := by
  obtain ⟨u, s₁, h₁, h⟩ := ok_of_bind h
  cases h₁
  obtain ⟨scratch, s₂, h₂, h⟩ := ok_of_bind h
  obtain ⟨hbase, hframe, hkept⟩ := Body.scratch_ok h₂
  obtain ⟨intent, s₃, h₃, h⟩ := ok_of_bind h
  obtain ⟨hplan, hframe₃⟩ := Body.lift_ok h₃
  have hstill := (still_of_inStep (hx _)).1 _ _ hplan
  cases intent with
  | value v =>
    obtain ⟨u, s₄, -, h⟩ := ok_of_bind h
    cases h
  | ask handler args =>
    obtain ⟨w', s₄, h₄, h⟩ := ok_of_bind h
    cases h
    cases h₄
    refine ⟨?_, hbase, hkept.trans ?_⟩
    · exact hframe₃.trans hframe
    · rw [← hstill.stack]
      exact View.keptBelow_load scratch _ args

omit [HostFunction F] in
theorem settled_ok {function : FnId} {proto : Proto} {pc : Nat} {op : Op} {s t : Active F S}
    {w : View} {target : Val} : settled function proto pc op s ≠ .ok (.ask w target) t := by
  intro h
  obtain ⟨next, u, -, h⟩ := ok_of_bind h
  cases next <;> cases h

omit [HostFunction F] in
theorem next_ok {β : Type} {r : Reg} {f : Nat → Body F S β} {s t : Active F S} {b : β}
    (h : (Body.lift (orOverflow (Reg.next? r)) >>= f) s = .ok b t) :
    f (r.toNat + 1) s = .ok b t := by
  unfold Reg.next? at h
  split at h
  · exact h
  · cases h

omit [HostFunction F] in
theorem span_ok {β : Type} {base : Nat} {count : Count} {f : Nat × Nat → Body F S β}
    {s t : Active F S} {b : β} (h : (span base count >>= f) s = .ok b t) :
    ∃ last, f (base, last) s = .ok b t := by
  cases count <;> exact ⟨_, h⟩

/-- An operation calls on a window that leaves it the registers below, as they are. -/
theorem prepare_asked {function : FnId} {proto : Proto} {pc : Nat} {op : Op} {s t : Active F S}
    {w : View} {target : Val} (h : prepare function proto pc op s = .ok (.ask w target) t) :
    t.frame = { s.frame with index := pc + 1 } ∧
      w.base = s.frame.view.base + op.windowAt s.frame.slots ∧
      Stack.KeptBelow w.base s.machine.thread.stack t.machine.thread.stack := by
  cases op with
  | getGlobal dst name =>
    exact ask_kept (fun m => (globals_inStep (Abreast.closed m)).seq fun _ =>
      planIndex_inStep (Abreast.closed m) _ _) h
  | setGlobal name src =>
    obtain ⟨value, h⟩ := Body.getSlot_ok h
    exact ask_kept (fun m => (globals_inStep (Abreast.closed m)).seq fun _ =>
      planNewIndex_inStep (Abreast.closed m) _ _ _) h
  | index dst object key =>
    obtain ⟨object, h⟩ := Body.getSlot_ok h
    obtain ⟨key, h⟩ := Body.getSlot_ok h
    exact ask_kept (fun m => planIndex_inStep (Abreast.closed m) _ _) h
  | newIndex object key value =>
    obtain ⟨object, h⟩ := Body.getSlot_ok h
    obtain ⟨key, h⟩ := Body.getSlot_ok h
    obtain ⟨value, h⟩ := Body.getSlot_ok h
    exact ask_kept (fun m => planNewIndex_inStep (Abreast.closed m) _ _ _) h
  | binary op dst lhs rhs =>
    obtain ⟨lhs, h⟩ := Body.getSlot_ok h
    obtain ⟨rhs, h⟩ := Body.getSlot_ok h
    exact ask_kept (fun m => planArith_inStep (Abreast.closed m) _ _ _) h
  | unary op dst src =>
    cases op with
    | not => exact (settled_ok h).elim
    | neg | bnot | len =>
      obtain ⟨operand, h⟩ := Body.getSlot_ok h
      exact ask_kept (fun m => planUnary_inStep (Abreast.closed m) _ _) h
  | call func args results =>
    obtain ⟨callee, h⟩ := Body.getSlot_ok h
    obtain ⟨last, h⟩ := span_ok (next_ok h)
    cases h
    exact ⟨rfl, rfl, View.keptBelow_growTo (s.frame.view.child (func.toNat + 1)) _ _⟩
  | nil | bool | const | move | varInit | varStore | getUpval | setUpval | closure | newTable
  | append | jump | test | tailCall | ret | vararg => exact (settled_ok h).elim

end Interpreter

/-! ## Nested calls -/

theorem Isolated.kept {base : Nat} {x : M F S α} (h : Isolated base x) {m t : Machine F S}
    (ht : EndsIn (x m) t) : Stack.KeptBelow base m.thread.stack t.thread.stack := by
  have h := h m
  cases hx : x m with
  | ok a u => rw [hx] at h ht; obtain rfl := ht; exact h
  | error e u => rw [hx] at h ht; obtain ⟨he, rfl⟩ := ht; exact h he

/-- A frame that is laid out again from a link. -/
def Link.reopened (link : Link) (layout : Layout) (view : View) : Frame :=
  ⟨⟨view.base, link.saved.top⟩, link.index, layout.slots, link.saved.varargs⟩

namespace Interpreter

/-- An operation that calls a value on a window, and the activation when it does so. -/
structure Asks (function : FnId) (proto : Proto) (pc : Nat) (op : Op) (s : Active F S)
    (window : View) (target : Val) (t : Active F S) : Prop where
  execute : ∀ P : Perform F S, Interpreter.execute P function proto pc op s =
    (do
      Body.lift (P (.call window target))
      complete proto pc
      return Next.goto (pc + 1)) t
  frame : t.frame = { s.frame with index := pc + 1 }
  base : window.base = s.frame.view.base + op.windowAt s.frame.slots
  kept : Stack.KeptBelow window.base s.machine.thread.stack t.machine.thread.stack

/-- An operation calls nothing, or one value. -/
theorem asks_or [HostFunction F] (function : FnId) {proto : Proto} {pc : Nat} {op : Op}
    (hop : proto.code[pc]? = some op) (s : Active F S) :
    (∃ r, ∀ P, execute P function proto pc op s = r) ∨
      ∃ window target t, Asks function proto pc op s window target t := by
  have heq := fun P => congrFun (execute_eq (F := F) (S := S) P function hop) s
  cases h : prepare function proto pc op s with
  | error e t => exact .inl ⟨.error e t, fun P => (heq P).trans (bind_of_error h)⟩
  | ok turn t =>
    have hfinish : ∀ P, execute P function proto pc op s = finish P proto pc turn t :=
      fun P => (heq P).trans (bind_of_ok h)
    cases turn with
    | goto p => exact .inl ⟨.ok (.goto p) t, hfinish⟩
    | done => exact .inl ⟨.ok .done t, hfinish⟩
    | ask window target =>
      obtain ⟨hframe, hbase, hkept⟩ := prepare_asked h
      exact .inr ⟨window, target, t, hfinish, hframe, hbase, hkept⟩

end Interpreter

variable [HostBody F S]

/-- How a nested call of a frame goes: the call itself, and after each suspension a replay on
the frame laid out again from the link that the suspension left, on any machine and anywhere on
its stack. Each of them ends in some way, with the frame where it lies then. -/
inductive Rounds (function : FnId) (layout : Layout) (frame : Frame) (m : Machine F S)
    (window : View) (target : Val) : Frame → EStateM.Result Unwind (Machine F S) Unit → Prop
  | call (n : Nat) : Rounds function layout frame m window target frame
      (perform n (.call window target) m)
  | replay {g : Frame} {s : Suspension} {t t' : Machine F S} {link : Link} (n : Nat)
      (view : View) (inner : List Link) (values : List Val) (m' : Machine F S) :
    Rounds function layout frame m window target g (.error (.suspend s) t) →
    suspendFrame function g s t = .error (.suspend ⟨s.values, link :: s.chain⟩) t' →
    Rounds function layout frame m window target (link.reopened layout view)
      ((do
        let frame ← reopenFrame layout view link.index link.saved
        let scratch ← Body.scratchOf frame
        perform n (.replay inner values scratch)) m')

variable [QuietHost F S]

/-- **Registers survive nested calls.** The registers below the window of a nested call are
the same whenever it ends, also after it has been suspended and resumed. -/
theorem Rounds.regs {function : FnId} {layout : Layout} {frame : Frame} {m : Machine F S}
    {window : View} {target : Val} {g : Frame} {r : EStateM.Result Unwind (Machine F S) Unit}
    {k : Nat} (h : Rounds function layout frame m window target g r)
    (hwindow : window.base = frame.view.base + k) (hslots : frame.slots = layout.slots) :
    g.slots = layout.slots ∧ ∀ u, EndsIn r u → ∀ i < k, i < layout.slots →
      u.thread.stack.slot (g.view.base + i) = m.thread.stack.slot (frame.view.base + i) := by
  induction h with
  | call n =>
    refine ⟨hslots, fun u hu i hi _ => ?_⟩
    exact ((Dispatch.run_isolated n window (.call target)).kept hu).1 _ (by omega)
  | @replay g s t t' link n view inner values m' _ hlink ih =>
    obtain ⟨hg, ih⟩ := ih
    obtain rfl : link = linkOf function g t := by
      obtain ⟨x, hx⟩ := suspendFrame_ok function g s t
      rw [hx] at hlink
      cases hlink
      rfl
    refine ⟨rfl, fun u hu i hi hslot => ?_⟩
    obtain ⟨st, tr, hst, -, hrun⟩ := reopen_ok (α := Unit) layout view (linkOf function g t).index
      (linkOf function g t).saved m'
    rw [hrun] at hu
    have hkept := (Dispatch.run_isolated n ⟨view.base + layout.slots, 0⟩ (.replay inner values)).kept hu
    have hlength : (linkOf function g t).saved.slots.length = g.slots := View.length_snapshot ..
    show u.thread.stack.slot (view.base + i) = _
    rw [hkept.1 _ (by show view.base + i < view.base + layout.slots; omega), restack_stack, hst,
      View.slot_restore, if_pos (by omega), Nat.add_sub_cancel_left]
    exact (View.getD_snapshot _ _ (by omega)).trans (ih t ⟨trivial, rfl⟩ i hi hslot)

/-- **Frame isolation.** No operation on a window changes a slot below it or shrinks the stack,
with values, a fault or a suspension. So the registers of a frame that lie below the window of an
operation's call, which are those up to the callee of a call and all of them for any other
operation, are as before whenever the call ends, also if it was suspended and went on elsewhere. -/
theorem frames_isolated :
    (∀ (n : Nat) (window : View) (d : Dispatch),
      Isolated window.base (d.run (perform n : Perform Empty PUnit) window)) ∧
    ∀ (function : FnId) (proto : Proto) (pc : Nat) (op : Op) (s : Active Empty PUnit),
      proto.code[pc]? = some op → s.frame.slots = proto.layout.slots →
      (∃ r, ∀ P, Interpreter.execute P function proto pc op s = r) ∨
      ∃ window target t, Interpreter.Asks function proto pc op s window target t ∧
        ∀ g r u, Rounds function proto.layout t.frame t.machine window target g r → EndsIn r u →
          ∀ i < op.windowAt s.frame.slots, i < s.frame.slots →
            u.thread.stack.slot (g.view.base + i) =
              s.machine.thread.stack.slot (s.frame.view.base + i) := by
  refine ⟨Dispatch.run_isolated, fun function proto pc op s hop hslots => ?_⟩
  refine (Interpreter.asks_or function hop s).imp id ?_
  rintro ⟨window, target, t, h⟩
  refine ⟨window, target, t, h, fun g r u hr hu i hi hslot => ?_⟩
  have hbase : window.base = t.frame.view.base + op.windowAt s.frame.slots := by
    rw [h.frame]; exact h.base
  have hregs := (hr.regs hbase (by rw [h.frame]; exact hslots)).2 u hu i hi (hslots ▸ hslot)
  rw [hregs, h.frame]
  exact h.kept.1 _ (by rw [h.base]; exact Nat.add_lt_add_left hi _)

end ScriptCore
