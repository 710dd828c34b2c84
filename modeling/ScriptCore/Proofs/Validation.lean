import ScriptCore.Proofs.Isolation
import ScriptCore.Proofs.Violations

/-!
# Soundness of the check of bodies

A closure over a checked body is run any number of times, afresh or from the links that it has
left. `Enters` are the activations with which the body starts or goes on, `Visits` are those at
which it comes to an operation, and `Pushes` are the links that it leaves. Every operation is
inside the code and finds what it names (`Visits.sound`), and every link leads behind an operation
that may suspend (`Pushes.sound`), whose completion then succeeds (`Enters.completes`).
`validation_sound` puts it together.
-/

namespace ScriptCore

open Machine

variable {F S : Type}

/-! ## Closures stay closures -/

theorem Callable.ClosureOf.lt_size {h : Heap F} {f : FnId} {p : Proto}
    (hc : (h.function f).ClosureOf p) : f.index < h.functions.size := by
  have hlayout : (h.function f).HasLayout p.layout := by
    generalize h.function f = c at hc ⊢
    cases c with
    | closure q cells => exact congrArg Proto.layout hc.1
    | _ => exact hc.elim
  exact hlayout.lt_size

/-- The watch that checks that a function stays a closure over a body. -/
def Watch.closure (f : FnId) (p : Proto) (alarm : M F S Unit) : Watch F S where
  within _ m := (m.heap.function f).ClosureOf p
  yields _ := True
  alarm := alarm

/-- **Closures stay.** A closure keeps its body and has a cell for each captured variable. -/
def Regime.closure (f : FnId) (p : Proto) (alarm : M F S Unit) :
    Regime (Watch.closure f p alarm) where
  inv _ m := (m.heap.function f).ClosureOf p
  lost _ _ _ := True
  permits _ _ := True
  within h := h
  quiet h hq := (hq.functions f h.lt_size).closureOf h
  lost_quiet _ _ := trivial
  host _ h := h
  enter _ h _ := h
  leave h := h
  lost_leave _ := trivial
  enterBoundary h := h
  leaveBoundary h := h
  yield _ _ _ _ := trivial
  yieldNative _ _ _ _ := trivial
  permits_yield _ := trivial
  link _ _ := trivial
  permits_boundary := trivial
  permits_link _ := trivial
  create _ h := h
  resume h _ := h
  permits_resume := trivial
  returned _ h := h
  yielded _ h _ := h

/-! ## Requests leave results -/

namespace Machine

section Settles

variable [HostBody F S]

/-- When tail calls have been carried out, none is pending. -/
theorem drain_settles {r : Runner F S} {window : View} {n : Nat} {m t : Machine F S}
    (h : drain r window n m = .ok () t) : t.thread.results.pending = none := by
  induction n generalizing window m with
  | zero => cases h
  | succ n ih =>
    unfold drain at h
    obtain ⟨target?, u, hu, h⟩ := ok_of_bind h
    cases target? with
    | none =>
      obtain ⟨-, rfl⟩ := EStateM.Result.ok.inj hu
      cases h
      rfl
    | some target =>
      obtain ⟨_, _, -, h⟩ := ok_of_bind h
      obtain ⟨_, _, -, h⟩ := ok_of_bind h
      obtain ⟨_, _, -, h⟩ := ok_of_bind h
      obtain ⟨_, _, -, h⟩ := ok_of_bind h
      exact ih h

/-- When a request has been carried out, no tail call is pending. -/
theorem perform_settles {n : Nat} {request : Request} {m t : Machine F S}
    (h : perform n request m = .ok () t) : t.thread.results.pending = none := by
  cases n with
  | zero => cases h
  | succ n =>
    cases request with
    | call window target =>
      obtain ⟨_, _, -, h⟩ := ok_of_bind h
      exact drain_settles h
    | replay links values window =>
      cases links with
      | nil =>
        cases h
        rfl
      | cons link inner =>
        obtain ⟨_, _, -, h⟩ := ok_of_bind h
        exact drain_settles h

end Settles

theorem resultList_ok {m : Machine F S} (h : m.thread.results.pending = none) :
    (resultList : M F S (List Val)) m = .ok m.thread.results.values m := by
  show (orViolate m.thread.results.read : M F S (List Val)) m = _
  rw [Results.read, Results.isTailCall, h]
  rfl

theorem result_ok {m : Machine F S} (h : m.thread.results.pending = none) (i : Nat) :
    (result i : M F S Val) m = .ok (m.thread.results.values.getD i .nil) m := by
  show (orViolate (m.thread.results.get i) : M F S Val) m = _
  rw [Results.get, Results.read, Results.isTailCall, h]
  rfl

end Machine

/-! ## Operations -/

namespace Interpreter

variable {f : FnId} {p : Proto} {pc : Nat} {op : Op} {P : Perform F S} {s t : Active F S}

/-- Without a pending tail call, the outcome of an operation that may suspend can be stored. -/
theorem complete_ok (hop : p.code[pc]? = some op) (hmay : op.maySuspend)
    (h : s.machine.thread.results.pending = none) : ∃ t, complete p pc s = .ok () t := by
  have hstored : ∀ (post : Val → Val) (dst : Reg), complete p pc =
      (do Body.setSlot dst.toNat (post (← Body.lift (result 0))) : Body F S Unit) →
      ∃ t, complete p pc s = .ok () t := by
    intro post dst hc
    obtain ⟨m, hm⟩ := Body.setSlot_ok dst.toNat (post (s.machine.thread.results.values.getD 0 .nil)) s
    rw [hc]
    exact ⟨_, (bind_of_ok (Body.lift_of_ok (result_ok h 0))).trans hm⟩
  cases op with
  | getGlobal dst name => exact hstored id dst (by simp [complete, hop])
  | index dst object key => exact hstored id dst (by simp [complete, hop])
  | binary op dst lhs rhs => exact hstored op.finish dst (by simp [complete, hop])
  | unary op dst src =>
    cases op with
    | not => cases hmay
    | neg | bnot | len => exact hstored id dst (by simp [complete, hop])
  | setGlobal name src => exact ⟨s, by simp [complete, hop]; rfl⟩
  | newIndex object key value => exact ⟨s, by simp [complete, hop]; rfl⟩
  | call func args results =>
    have hvalues := Body.lift_of_ok (resultList_ok h)
    cases results with
    | fixed n =>
      by_cases hn : n = 0
      · exact ⟨s, by simp [complete, hop, hn]; rfl⟩
      · have hc : complete p pc = (do
            let values ← Body.lift resultList
            Body.setSlots func.toNat (padded n.toNat values) : Body F S Unit) := by
          simp [complete, hop, hn]
        obtain ⟨m, hm⟩ := Body.setSlots_ok func.toNat
          (padded n.toNat s.machine.thread.results.values) s
        rw [hc]
        exact ⟨_, (bind_of_ok hvalues).trans hm⟩
    | «open» =>
      have hc : complete p pc = (do
          let values ← Body.lift resultList
          Body.setSlots func.toNat values
          Body.setTop (func.toNat + values.length) : Body F S Unit) := by
        simp [complete, hop]
      obtain ⟨m, hm⟩ := Body.setSlots_ok func.toNat s.machine.thread.results.values s
      obtain ⟨t, ht⟩ := Body.setTop_ok (func.toNat + s.machine.thread.results.values.length)
        ⟨s.frame, m⟩
      rw [hc]
      exact ⟨t, (bind_of_ok hvalues).trans ((bind_of_ok hm).trans ht)⟩
  | nil | bool | const | move | varInit | varStore | getUpval | setUpval | closure | newTable
  | append | jump | test | tailCall | ret | vararg => cases hmay

section Turns

variable [HostFunction F]

theorem prepared {turn : Turn} (h : prepare f p pc op s = .ok turn t) :
    Prepared (.self s.machine s.frame.view.base) (fun _ => True) s.frame pc op turn turn t t := by
  have hx := prepare_self f p pc op s
  rw [h] at hx
  exact hx

theorem prepare_plain {e : Unwind} (h : prepare f p pc op s = .error e t) : e.Plain := by
  have hx := prepare_self f p pc op s
  rw [h] at hx
  exact hx.2.1.plain

theorem complete_plain (hop : p.code[pc]? = some op) {e : Unwind}
    (h : complete p pc s = .error e t) : e.Plain := by
  have hx := complete_self hop s
  rw [h] at hx
  exact hx.2.1.plain

/-- Where the code goes on after an operation. -/
theorem execute_goto (hop : p.code[pc]? = some op) {next : Nat}
    (h : execute P f p pc op s = .ok (.goto next) t) : op.Next pc next := by
  rw [execute_eq P f hop] at h
  obtain ⟨turn, u, hturn, h⟩ := ok_of_bind h
  have hturn := prepared hturn
  cases turn with
  | goto q =>
    cases h
    exact hturn.2.1
  | done => cases h
  | ask w target =>
    obtain ⟨_, _, -, h⟩ := ok_of_bind h
    obtain ⟨_, _, -, h⟩ := ok_of_bind h
    cases h
    exact Op.next_of_maySuspend hturn.2.1 pc

/-- An operation that is suspended may be, and its frame remembers the place behind it. -/
theorem execute_suspends (hop : p.code[pc]? = some op) {c : Suspension}
    (h : execute P f p pc op s = .error (.suspend c) t) :
    op.maySuspend ∧ t.frame = { s.frame with index := pc + 1 } := by
  rw [execute_eq P f hop] at h
  cases hturn : prepare f p pc op s with
  | error e u =>
    cases (bind_of_error hturn).symm.trans h
    exact (prepare_plain hturn).elim
  | ok turn u =>
    replace h := (bind_of_ok hturn).symm.trans h
    cases turn with
    | goto q => cases h
    | done => cases h
    | ask w target =>
      obtain ⟨hframe, -, -⟩ := prepare_asked hturn
      refine ⟨(prepared hturn).2.1, ?_⟩
      obtain h | ⟨_, v, -, h⟩ := error_of_bind h
      · exact (Body.lift_error h).2.trans hframe
      · obtain h | ⟨_, _, -, h⟩ := error_of_bind h
        · exact (complete_plain hop h).elim
        · cases h

end Turns

/-- The closure that an operation makes is a closure over the nested body. -/
theorem makeClosure_made {idx : Nat} {v : Val}
    (h : makeClosure f p idx s = .ok v t) : ∃ g q, v = .fn g ∧ p.children[idx]? = some q ∧
      (t.machine.heap.function g).ClosureOf q := by
  unfold makeClosure at h
  cases hq : p.children[idx]? with
  | none =>
    rw [hq] at h
    cases h
  | some q =>
    rw [hq] at h
    obtain ⟨frame, u, hframe, h⟩ := ok_of_bind h
    obtain ⟨h, -⟩ := Body.lift_ok h
    obtain ⟨cells, w, -, h⟩ := ok_of_bind h
    obtain ⟨g, x, hnew, hclosure⟩ := newClosure_ok q cells w
    cases (bind_of_ok hnew).symm.trans h
    exact ⟨g, q, rfl, rfl, hclosure⟩

/-- Giving parameters their cells does not fail. -/
theorem reifyParams_ok (p : Proto) (slot n : Nat) (s : Active F S) :
    ∃ t, reifyParams p slot n s = .ok () t := by
  induction n generalizing slot s with
  | zero => exact ⟨s, rfl⟩
  | succ n ih =>
    unfold reifyParams
    split
    · exact ih (slot + 1) _
    · exact ih (slot + 1) s

end Interpreter

/-! ## The life of a closure -/

namespace Machine

variable [HostBody F S] {f : FnId} {p : Proto} {m : Machine F S}

/-- A closure is run as its body. -/
theorem runFunction_closure (hf : (m.heap.function f).ClosureOf p) (fuel : Nat) (P : Perform F S)
    (args : View) : runFunction fuel P f args m =
      enterBody f p.layout (Interpreter.run fuel P f p) args m := by
  unfold runFunction
  rw [functionAt_bind]
  generalize m.heap.function f = c at hf ⊢
  cases c with
  | closure q cells =>
    obtain ⟨rfl, -⟩ := hf
    rfl
  | _ => exact hf.elim

/-- A link of a closure is re-entered in the closure's body. -/
theorem reenterFunction_closure {link : Link} (hf : (m.heap.function link.function).ClosureOf p)
    (fuel : Nat) (P : Perform F S) (inner : List Link) (values : List Val) (window : View) :
    reenterFunction fuel P link inner values window m =
      reenterBody P link.function p.name p.layout (Interpreter.run fuel P link.function p) window
        link.index link.saved inner values m := by
  obtain ⟨f, index, saved⟩ := link
  unfold reenterFunction
  dsimp only at hf ⊢
  rw [functionAt_bind]
  generalize m.heap.function f = c at hf ⊢
  cases c with
  | closure q cells =>
    obtain ⟨rfl, -⟩ := hf
    rfl
  | _ => exact hf.elim

end Machine

open Interpreter

/-- The links that a closure over a body leaves when it is suspended: a call of it, or a re-entry
of a link that it has left before. -/
inductive Pushes (f : FnId) (p : Proto) : Link → Prop
  | called {m t : Machine Empty PUnit} {args : View} {n fuel : Nat} {values : List Val}
    {link : Link} {chain : List Link} (hf : (m.heap.function f).ClosureOf p)
    (h : runFunction fuel (perform n) f args m = .error (.suspend ⟨values, link :: chain⟩) t) :
    Pushes f p link
  | reentered {m t : Machine Empty PUnit} {window : View} {n fuel : Nat} {inner chain : List Link}
    {values values' : List Val} {link link' : Link} (hlink : Pushes f p link)
    (hf : (m.heap.function f).ClosureOf p)
    (h : reenterFunction fuel (perform n) link inner values window m =
      .error (.suspend ⟨values', link' :: chain⟩) t) : Pushes f p link'

/-- The activations with which a closure over a body starts, or goes on from a link that it has
left when the links below have ended. -/
inductive Enters (f : FnId) (p : Proto) : Active Empty PUnit → Prop
  | called {m t : Machine Empty PUnit} {args : View} {frame : Frame}
    (hf : (m.heap.function f).ClosureOf p) (h : openFrame p.layout args m = .ok frame t) :
    Enters f p ⟨frame, t⟩
  | reentered {m t u v : Machine Empty PUnit} {window scratch : View} {n : Nat}
    {inner : List Link} {values : List Val} {link : Link} {frame : Frame}
    (hlink : Pushes f p link) (hf : (m.heap.function f).ClosureOf p)
    (hframe : reopenFrame p.layout window link.index link.saved m = .ok frame t)
    (hscratch : Body.scratchOf frame t = .ok scratch u)
    (hreplay : perform n (.replay inner values scratch) u = .ok () v) : Enters f p ⟨frame, v⟩

/-- The activations at which a closure over a body comes to a place in its code. -/
inductive Visits (f : FnId) (p : Proto) : Nat → Active Empty PUnit → Prop
  | called {s t : Active Empty PUnit} (h : Enters f p s) (hindex : s.frame.index = 0)
    (hparams : reifyParams p 0 p.params s = .ok () t) : Visits f p 0 t
  | reentered {s t : Active Empty PUnit} (h : Enters f p s) (hindex : s.frame.index ≠ 0)
    (hcomplete : complete p (s.frame.index - 1) s = .ok () t) : Visits f p s.frame.index t
  | step {pc next : Nat} {s t : Active Empty PUnit} {op : Op} {n : Nat} (h : Visits f p pc s)
    (hop : p.code[pc]? = some op) (hstep : execute (perform n) f p pc op s = .ok (.goto next) t) :
    Visits f p next t

section Life

variable {f : FnId} {p : Proto} {pc : Nat} {s t : Active Empty PUnit} {n fuel : Nat}

/-- An agreement of a step of a body, read as what it keeps of its frame and of its function. -/
theorem kept_of_agrees {α : Type} {x y : Body Empty PUnit α} {a : α}
    (h : Agrees ((Regime.closure f p (pure ())).body []) x y)
    (hf : (s.machine.heap.function f).ClosureOf p) (hx : x s = .ok a t) :
    t.frame.slots = s.frame.slots ∧ (t.machine.heap.function f).ClosureOf p := by
  have h := h s hf
  rw [hx] at h
  exact ⟨h.2.2.2.1, h.2.1⟩

theorem perform_closure {request : Request} {m u : Machine Empty PUnit}
    (hf : (m.heap.function f).ClosureOf p) (hu : EndsIn (perform n request m) u) :
    (u.heap.function f).ClosureOf p :=
  Regime.inv_of_meets _ ((Regime.closure f p (pure ())).perform_agrees
    (fun _ _ _ _ => trivial) n [] request m hf) hu

/-- An activation has the slots that its body declares, and its function is still the closure. -/
theorem Enters.kept (h : Enters f p s) :
    s.frame.slots = p.layout.slots ∧ (s.machine.heap.function f).ClosureOf p := by
  cases h with
  | @called m t args frame hf h =>
    obtain ⟨x, hx⟩ := openFrame_ok p.layout args m
    cases hx.symm.trans h
    exact ⟨rfl, hf⟩
  | @reentered m t u v window scratch n inner values link frame hlink hf hframe hscratch hreplay =>
    have hu : (u.heap.function f).ClosureOf p := by
      cases hframe
      cases hscratch
      exact hf
    have hends : EndsIn (perform n (.replay inner values scratch) u) v := by
      rw [hreplay]
      rfl
    cases hframe
    exact ⟨rfl, perform_closure hu hends⟩

theorem Visits.kept (h : Visits f p pc s) :
    s.frame.slots = p.layout.slots ∧ (s.machine.heap.function f).ClosureOf p := by
  have hP := (Regime.closure f p (pure () : M Empty PUnit Unit)).perform_agrees
    (fun _ _ _ _ => trivial)
  induction h with
  | called h _ hparams =>
    obtain ⟨hslots, hf⟩ := kept_of_agrees (Regime.stays _ fun o g _ ho =>
      reifyParams_paired p 0 _ (fun _ _ _ => trivial) fun i _ => ho.bare i) h.kept.2 hparams
    exact ⟨hslots.trans h.kept.1, hf⟩
  | reentered h _ hcomplete =>
    obtain ⟨hslots, hf⟩ := kept_of_agrees (Regime.complete_agrees _ p _) h.kept.2 hcomplete
    exact ⟨hslots.trans h.kept.1, hf⟩
  | @step pc next s t op n h hop hstep ih =>
    obtain ⟨hslots, hf⟩ := kept_of_agrees (Regime.execute_meets _ (hP n []) f hop) ih.2 hstep
    exact ⟨hslots.trans ih.1, hf⟩

/-- A loop of a body fails, or is suspended, at an operation that it visits. -/
theorem Visits.loop_error {e : Unwind} (hv : Visits f p pc s)
    (h : loop (perform n) f p fuel pc s = .error e t) : e = .exhausted ∨
      ∃ q op u, Visits f p q u ∧ p.code[q]? = some op ∧ execute (perform n) f p q op u = .error e t := by
  induction fuel generalizing pc s with
  | zero =>
    cases h
    exact .inl rfl
  | succ fuel ih =>
    unfold loop at h
    cases hop : p.code[pc]? with
    | none =>
      rw [hop] at h
      cases h
    | some op =>
      rw [hop] at h
      obtain h | ⟨next, u, hu, h⟩ := error_of_bind h
      · exact .inr ⟨pc, op, s, hv, hop, h⟩
      · cases next with
        | goto q => exact ih (hv.step hop hu) h
        | done => cases h

/-- The run of a body fails, or is suspended, at an operation that it visits, if the outcome with
which it goes on can be stored. -/
theorem Enters.run_error {e : Unwind} (hs : Enters f p s)
    (hcomplete : s.frame.index ≠ 0 → ∃ u, complete p (s.frame.index - 1) s = .ok () u)
    (h : Interpreter.run fuel (perform n) f p s = .error e t) : e = .exhausted ∨
      ∃ q op u, Visits f p q u ∧ p.code[q]? = some op ∧ execute (perform n) f p q op u = .error e t := by
  replace h : (if s.frame.index = 0 then (do
      reifyParams p 0 p.params
      loop (perform n) f p fuel 0)
    else (do
      complete p (s.frame.index - 1)
      loop (perform n) f p fuel s.frame.index) : Body Empty PUnit Unit) s = .error e t := h
  by_cases hindex : s.frame.index = 0
  · rw [if_pos hindex] at h
    obtain ⟨u, hu⟩ := reifyParams_ok p 0 p.params s
    exact (Visits.called hs hindex hu).loop_error ((bind_of_ok hu).symm.trans h)
  · rw [if_neg hindex] at h
    obtain ⟨u, hu⟩ := hcomplete hindex
    exact (Visits.reentered hs hindex hu).loop_error ((bind_of_ok hu).symm.trans h)

/-! ## Links -/

/-- A body that is suspended leaves the link of its frame. -/
theorem Machine.runBody_left {body : Body Empty PUnit Unit} {frame : Frame} {m u : Machine Empty PUnit}
    {values : List Val} {link : Link} {chain : List Link}
    (h : runBody f body frame m = .error (.suspend ⟨values, link :: chain⟩) u) :
    ∃ c t, body ⟨frame, m⟩ = .error (.suspend c) t ∧ link = linkOf f t.frame t.machine := by
  unfold runBody at h
  cases hbody : body ⟨frame, m⟩ with
  | ok a t =>
    rw [hbody] at h
    cases h
  | error e t =>
    rw [hbody] at h
    cases e with
    | suspend c =>
      obtain ⟨x, hx⟩ := suspendFrame_ok f t.frame c t.machine
      cases hx.symm.trans h
      exact ⟨c, t, rfl, rfl⟩
    | fault | overflow | exhausted => cases h

/-- A link that is re-entered and suspended again. Either the links below it are suspended once more,
and its frame leaves a link with the slots as they are, or they end and the body goes on. -/
theorem Machine.reenterFunction_left {m t : Machine Empty PUnit} {link link' : Link}
    {window : View} {inner chain : List Link} {values values' : List Val}
    (hf : (m.heap.function link.function).ClosureOf p) (hindex : link.index ≠ 0)
    (h : reenterFunction fuel (perform n) link inner values window m =
      .error (.suspend ⟨values', link' :: chain⟩) t) :
    ∃ u v, reopenFrame p.layout window link.index link.saved m =
        .ok (link.reopened p.layout window) u ∧
      Body.scratchOf (link.reopened p.layout window) u =
        .ok ⟨window.base + p.layout.slots, 0⟩ v ∧
      ((∃ w, perform n (.replay inner values ⟨window.base + p.layout.slots, 0⟩) v = .ok () w ∧
          runBody link.function (Interpreter.run fuel (perform n) link.function p)
            (link.reopened p.layout window) w = .error (.suspend ⟨values', link' :: chain⟩) t) ∨
        ∃ c w, perform n (.replay inner values ⟨window.base + p.layout.slots, 0⟩) v =
            .error (.suspend c) w ∧
          link' = linkOf link.function (link.reopened p.layout window) w) := by
  rw [reenterFunction_closure hf, reenterBody_eq _ _ _ _ _ _ hindex] at h
  obtain ⟨u, hframe⟩ : ∃ u, reopenFrame p.layout window link.index link.saved m =
    .ok (link.reopened p.layout window) u := ⟨_, rfl⟩
  obtain ⟨v, hscratch⟩ : ∃ v, Body.scratchOf (link.reopened p.layout window) u =
    .ok ⟨window.base + p.layout.slots, 0⟩ v := ⟨_, rfl⟩
  refine ⟨u, v, hframe, hscratch, ?_⟩
  replace h := (bind_of_ok hscratch).symm.trans ((bind_of_ok hframe).symm.trans h)
  rw [attempt_bind] at h
  cases hreplay : perform n (.replay inner values ⟨window.base + p.layout.slots, 0⟩) v with
  | ok a w =>
    rw [hreplay] at h
    exact .inl ⟨w, rfl, h⟩
  | error e w =>
    rw [hreplay] at h
    cases e with
    | suspend c =>
      obtain ⟨x, hx⟩ := suspendFrame_ok link.function (link.reopened p.layout window) c w
      cases hx.symm.trans h
      exact .inr ⟨c, w, rfl, rfl⟩
    | fault | overflow | exhausted => cases h

/-- A link of a function that leads behind an operation of its body that may suspend. -/
structure Link.ResumesIn (link : Link) (f : FnId) (p : Proto) : Prop where
  function : link.function = f
  index : ∃ pc op, link.index = pc + 1 ∧ p.code[pc]? = some op ∧ op.maySuspend
  slots : link.saved.slots.length = p.layout.slots

theorem Link.ResumesIn.index_ne_zero {link : Link} (h : link.ResumesIn f p) : link.index ≠ 0 := by
  obtain ⟨pc, _, hpc, -⟩ := h.index
  exact hpc ▸ Nat.succ_ne_zero pc

/-- What a suspended body leaves. -/
theorem Enters.leaves {values : List Val} {link : Link} {chain : List Link} {m : Machine Empty PUnit}
    (hs : Enters f p s)
    (hcomplete : s.frame.index ≠ 0 → ∃ u, complete p (s.frame.index - 1) s = .ok () u)
    (h : runBody f (Interpreter.run fuel (perform n) f p) s.frame s.machine =
      .error (.suspend ⟨values, link :: chain⟩) m) : link.ResumesIn f p := by
  obtain ⟨d, t, hrun, rfl⟩ := runBody_left h
  obtain he | ⟨q, op, u, hv, hop, hu⟩ := hs.run_error hcomplete hrun
  · cases he
  · obtain ⟨hmay, hframe⟩ := execute_suspends hop hu
    refine ⟨rfl, ⟨q, op, ?_, hop, hmay⟩, ?_⟩
    · show t.frame.index = q + 1
      rw [hframe]
    · refine (View.length_snapshot ..).trans ?_
      rw [hframe]
      exact hv.kept.1

/-- With the links below it ended, the outcome with which a link goes on can be stored. -/
theorem Link.ResumesIn.completes {link : Link} (h : link.ResumesIn f p)
    (hindex : s.frame.index = link.index) (hpending : s.machine.thread.results.pending = none) :
    s.frame.index ≠ 0 ∧ ∃ t, complete p (s.frame.index - 1) s = .ok () t := by
  obtain ⟨pc, op, hpc, hop, hmay⟩ := h.index
  rw [hindex, hpc]
  exact ⟨Nat.succ_ne_zero pc, complete_ok hop hmay hpending⟩

/-- **Links of closures.** Every link that a closure leaves leads behind an operation that may
suspend. -/
theorem Pushes.sound {link : Link} (h : Pushes f p link) : link.ResumesIn f p := by
  induction h with
  | @called m t args n fuel values link chain hf h =>
    rw [runFunction_closure hf] at h
    obtain ⟨x, hx⟩ := openFrame_ok p.layout args m
    exact (Enters.called hf hx).leaves (fun hindex => (hindex rfl).elim)
      ((bind_of_ok hx).symm.trans h)
  | @reentered m t window n fuel inner chain values values' link link' hlink hf h ih =>
    obtain rfl := ih.function
    obtain ⟨u, v, hframe, hscratch, ⟨w, hreplay, hrun⟩ | ⟨c, w, -, rfl⟩⟩ :=
      reenterFunction_left hf ih.index_ne_zero h
    · refine (Enters.reentered hlink hf hframe hscratch hreplay).leaves (fun _ => ?_) hrun
      exact (ih.completes (s := ⟨link.reopened p.layout window, w⟩) rfl
        (perform_settles hreplay)).2
    · exact ⟨rfl, ih.index, View.length_snapshot ..⟩

/-- An activation that goes on from a link can store the outcome. -/
theorem Enters.completes (h : Enters f p s) (hindex : s.frame.index ≠ 0) :
    (∃ pc op, s.frame.index = pc + 1 ∧ p.code[pc]? = some op) ∧
      ∃ t, complete p (s.frame.index - 1) s = .ok () t := by
  cases h with
  | @called m t args frame hf h =>
    obtain ⟨x, hx⟩ := openFrame_ok p.layout args m
    cases hx.symm.trans h
    exact (hindex rfl).elim
  | reentered hlink hf hframe hscratch hreplay =>
    cases hframe
    obtain ⟨pc, op, hpc, hop, -⟩ := hlink.sound.index
    exact ⟨⟨pc, op, hpc, hop⟩, (hlink.sound.completes rfl (perform_settles hreplay)).2⟩

/-- **Places in the code.** A closure over a checked body never leaves its code, but for its
end. -/
theorem Visits.le_size (hp : p.check = .ok ()) (h : Visits f p pc s) : pc ≤ p.code.size := by
  induction h with
  | called => exact Nat.zero_le _
  | reentered h hindex hcomplete =>
    obtain ⟨⟨pc, op, hpc, hop⟩, -⟩ := h.completes hindex
    rw [hpc]
    exact (Array.getElem?_eq_some_iff.1 hop).1
  | step h hop hstep ih => exact Proto.next_le_size hp hop (execute_goto hop hstep)

/-- **Broken contracts.** Where the run of a checked body breaks a contract, it is one that the
body may break, or a call of the body broke it. -/
theorem Enters.run_breaks (hp : p.check = .ok ()) (h : Enters f p s) {v : Violation}
    (hrun : Interpreter.run fuel (perform n) f p s = .error (.fault (.contract v)) t) :
    p.MayBreak v ∨ ∃ pc op u window target u', Visits f p pc u ∧ p.code[pc]? = some op ∧
      Asks f p pc op u window target u' ∧
      perform n (.call window target) u'.machine = .error (.fault (.contract v)) t.machine := by
  obtain he | ⟨q, op, u, hv, hop, hu⟩ := h.run_error (fun hindex => (h.completes hindex).2) hrun
  · cases he
  have hown := prepare_breaks (s := u) hop (Proto.fits_of_check hp hop) hv.kept.2
  have heq := fun P => congrFun (execute_eq (F := Empty) (S := PUnit) P f hop) u
  obtain h | ⟨turn, u', hturn, h⟩ := error_of_bind ((heq (perform n)).symm.trans hu)
  · exact .inl (hown v t h)
  cases turn with
  | goto q => cases h
  | done => cases h
  | ask window target =>
    obtain ⟨hframe, hbase, hkept⟩ := prepare_asked hturn
    have hasks : Asks f p q op u window target u' :=
      ⟨fun P => (heq P).trans (bind_of_ok hturn), hframe, hbase, hkept⟩
    obtain h | ⟨_, w, hcall, h⟩ := error_of_bind h
    · exact .inr ⟨q, op, u, window, target, u', hv, hop, hasks, (Body.lift_error h).1⟩
    · -- the call leaves no tail call pending, so its outcome can be stored
      obtain ⟨hperform, -⟩ := Body.lift_ok hcall
      obtain ⟨x, hx⟩ := complete_ok hop (prepared hturn).2.1 (perform_settles hperform)
      cases (bind_of_ok hx).symm.trans h

end Life

/-- The soundness of the check for one body. -/
structure Proto.Sound (p : Proto) : Prop where
  /-- All that an operation names is there. -/
  fits : ∀ (pc : Nat) (op : Op), p.code[pc]? = some op → op.Fits p
  /-- Loading the body makes a closure over it. -/
  loaded : ∀ m : Machine Empty PUnit, ∃ f t, loadProto p m = .ok (.fn f) t ∧
    (t.heap.function f).ClosureOf p
  /-- An operation of the body makes a closure over a nested body, which is checked. -/
  made : ∀ f idx (s t : Active Empty PUnit) v, makeClosure f p idx s = .ok v t →
    ∃ g q, v = .fn g ∧ p.children[idx]? = some q ∧ q.check = .ok () ∧
      (t.machine.heap.function g).ClosureOf q
  /-- A closure over the body stays one: at every function that a run enters or leaves, as no
  alarm is raised, and in the end. -/
  stays : ∀ f n acts request (m : Machine Empty PUnit), (m.heap.function f).ClosureOf p →
    (∀ alarm, (Watch.closure f p alarm).perform n acts request m = perform n request m) ∧
    ∀ u, EndsIn (perform n request m) u → (u.heap.function f).ClosureOf p
  /-- Running it never leaves the code, but for its end, and its frame is as declared. -/
  visits : ∀ f pc s, Visits f p pc s → pc ≤ p.code.size ∧ s.frame.slots = p.slots ∧
    (s.machine.heap.function f).ClosureOf p
  /-- Its links lead behind operations that may suspend. -/
  pushes : ∀ f link, Pushes f p link → link.function = f ∧ link.saved.slots.length = p.slots ∧
    ∃ pc op, link.index = pc + 1 ∧ p.code[pc]? = some op ∧ op.maySuspend
  /-- What it goes on with can be stored. -/
  completes : ∀ f s, Enters f p s → s.frame.index ≠ 0 →
    ∃ t, complete p (s.frame.index - 1) s = .ok () t
  /-- By itself it breaks no contract but those that it may break. -/
  breaks : ∀ f n fuel s t v, Enters f p s →
    Interpreter.run fuel (perform n) f p s = .error (.fault (.contract v)) t →
    p.MayBreak v ∨ ∃ pc op u window target u', Visits f p pc u ∧ p.code[pc]? = some op ∧
      Asks f p pc op u window target u' ∧
      perform n (.call window target) u'.machine = .error (.fault (.contract v)) t.machine

/-- **Soundness of the check.** A closure over a checked body, afresh or resumed any number of
times, stays in its code and its frame, finds all that it names, and is suspended only where it
can go on. -/
theorem validation_sound {p : Proto} (hp : p.check = .ok ()) : p.Sound where
  fits _ _ hop := Proto.fits_of_check hp hop
  loaded m := by
    obtain ⟨x, hx⟩ := record_ok m fun _ => .load p.name p.slots
    obtain ⟨f, t, hnew, hclosure⟩ := newClosure_ok p #[] { m with trace := x }
    refine ⟨f, t, ?_, hclosure⟩
    have hcheck : (orReject p.check : M Empty PUnit Unit) m = .ok () m := by rw [hp]; rfl
    exact (bind_of_ok hcheck).trans ((bind_of_ok hx).trans (bind_of_ok hnew))
  made f idx s t v h := by
    obtain ⟨g, q, hv, hq, hclosure⟩ := makeClosure_made h
    exact ⟨g, q, hv, hq, Proto.check_children hp q (List.mem_of_getElem? hq), hclosure⟩
  stays f n acts request m hf :=
    ⟨fun alarm => ((Regime.closure f p alarm).perform_agrees
      (fun _ _ _ _ => trivial) n acts request m hf).eq fun _ => trivial,
      fun _ hu => perform_closure hf hu⟩
  visits f pc s h := ⟨h.le_size hp, h.kept.1.trans (Proto.layout_slots hp), h.kept.2⟩
  pushes f link h :=
    ⟨h.sound.function, h.sound.slots.trans (Proto.layout_slots hp), h.sound.index⟩
  completes f s h hindex := (h.completes hindex).2
  breaks f n fuel s t v h hrun := h.run_breaks hp hrun

/-- Makes a closure that counts its calls, calls it, and returns what it does. -/
def Proto.counting : Proto :=
  { ofName "counting" with
    params := 1
    slots := 2
    reified := #[true]
    code := #[.closure 1 0, .call 1 (.fixed 0) .open, .ret 1 .open]
    children := [{ ofName "count" with
      slots := 2
      constants := #[.int 1]
      code := #[.getUpval 0 0, .const 1 0, .binary .add 0 0 1, .setUpval 0 0, .ret 0 (.fixed 1)]
      upvalues := [⟨"n", .slot 0⟩] }] }

theorem validation_sound_counting : Proto.counting.check = .ok () ∧ Proto.counting.Sound :=
  ⟨rfl, validation_sound rfl⟩

end ScriptCore
