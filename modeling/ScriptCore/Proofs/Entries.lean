import ScriptCore.Proofs.Completions
import ScriptCore.Proofs.ProtectedCalls
import ScriptCore.Proofs.Trampoline

/-!
# Entries

A call of a value goes through its `__call` handlers to a function (`Leads`), or there is none.

1. Each handler on the way is handed the value before it in front of the arguments
   (`resolve_leads`); where the limit does not let the call come to a function, it is a fault
   (`resolve_astray`).
2. The function is run once, on the arguments as its arity takes them (`invoke_runs`).
3. A compiled body starts on a fresh frame: its parameters are the arguments, or nil, and no other
   register holds what was on the stack before (`enterBody_fresh`).

Tail calls, protected calls and coroutines call in this way as well (`calls_enter`).
-/

namespace ScriptCore

open Machine Interpreter

variable {F S : Type}

/-! ## Live values -/

namespace View

variable {w : View} {m : Machine F S} {vs : List Val}

/-- The values of the live slots of a window. -/
def live (w : View) (m : Machine F S) : List Val := w.valuesFrom m.thread.stack m.heap.cells 0

@[simp] theorem length_live (w : View) (m : Machine F S) : (w.live m).length = w.top := by
  simp [live, valuesFrom, values]

theorem top_of_live (h : w.live m = vs) : w.top = vs.length := by
  rw [← h, length_live]

theorem getElem_live {i : Nat} (hi : i < (w.live m).length) :
    (w.live m)[i] = w.get m.thread.stack m.heap.cells i := by
  simp [live, valuesFrom, values]

/-- The live values of a window are known slot by slot. -/
theorem live_eq (htop : w.top = vs.length)
    (h : ∀ i (hi : i < vs.length), w.get m.thread.stack m.heap.cells i = vs[i]) :
    w.live m = vs :=
  List.ext_getElem (by rw [length_live, htop]) fun i hi hi' => (getElem_live hi).trans (h i hi')

/-- What is put in front of a window is its first live value. -/
theorem live_insertFront (w : View) (x : Val) (m : Machine F S) (t : Option (Array TraceEvent)) :
    (w.insertFront m.thread.stack x).1.live (m.restack (w.insertFront m.thread.stack x).2 t) =
      x :: w.live m := by
  refine live_eq (by simp) fun i hi => ?_
  rw [get, insertFront_fst, slot_eq, restack_stack, slot_insertFront]
  cases i with
  | zero =>
    rw [if_pos (Nat.add_zero _)]
    rfl
  | succ i =>
    have htop : i < w.top := by simpa using hi
    rw [if_neg (by dsimp only; omega), if_pos (by dsimp only; omega), List.getElem_cons_succ,
      getElem_live]
    rfl

/-- A window that is fitted to a number of slots holds the first ones of its values, and nils. -/
theorem live_fit (w : View) (n : Nat) (m : Machine F S) (t : Option (Array TraceEvent)) :
    (⟨w.base, n⟩ : View).live (m.restack (w.fit m.thread.stack n).2 t) = padded n (w.live m) := by
  refine live_eq (length_padded n _).symm fun i hi => ?_
  have hn : i < n := length_padded n (w.live m) ▸ hi
  rw [get, slot_eq, restack_stack, slot_fit]
  simp only [padded_eq, List.getElem_map, List.getElem_range]
  by_cases htop : i < w.top
  · rw [if_neg (by omega), List.getD_eq_getElem?_getD, List.getElem?_eq_getElem (by simpa using htop),
      Option.getD_some, getElem_live]
    rfl
  · rw [if_pos (by omega), List.getD_eq_getElem?_getD, List.getElem?_eq_none (by simpa using htop)]
    rfl

theorem live_child (w : View) (n : Nat) (m : Machine F S) : (w.child n).live m = (w.live m).drop n := by
  refine live_eq (by simp) fun i hi => ?_
  rw [List.getElem_drop, getElem_live, get, child_slot]
  rfl

theorem valuesFrom_eq (w : View) (n : Nat) (m : Machine F S) :
    w.valuesFrom m.thread.stack m.heap.cells n = (w.live m).drop n := by
  refine List.ext_getElem (by simp [valuesFrom, values]) fun i hi hi' => ?_
  rw [List.getElem_drop, getElem_live]
  simp [valuesFrom, values]

/-- A window that values are loaded into holds these values. -/
theorem live_load (w : View) (m : Machine F S) (t : Option (Array TraceEvent)) :
    (⟨w.base, vs.length⟩ : View).live (m.restack (w.load m.thread.stack vs).2 t) = vs := by
  refine live_eq rfl fun i hi => ?_
  rw [get]
  refine (congrArg (Slot.read _) (slot_load w m.thread.stack vs i hi)).trans ?_
  rw [List.getD_eq_getElem?_getD, List.getElem?_eq_getElem hi]
  rfl

end View

/-- Arguments as an arity takes them. -/
def Arity.fit : Arity → List Val → List Val
  | .fixed n, vs => padded n vs
  | .variadic, vs => vs

namespace Layout

variable {layout : Layout} {args : List Val}

/-- The arity of a body leaves it all parameters. -/
theorem getD_fit {i : Nat} (hi : i < layout.params) :
    (layout.arity.fit args).getD i .nil = args.getD i .nil := by
  unfold arity Arity.ofParams
  split
  · rfl
  · split
    · simp [Arity.fit, padded_eq, hi]
    · rfl

/-- The arity of a body that keeps further arguments leaves it all arguments. -/
theorem fit_vararg (h : layout.vararg) : layout.arity.fit args = args := by
  unfold arity
  rw [if_pos h]
  rfl

end Layout

namespace Machine

/-! ## The way to a function -/

/-- The `__call` handlers of a value lead to a function, and these values are on the way. -/
inductive Leads (m : Machine F S) : Val → List Val → FnId → Prop
  | here (f : FnId) : Leads m (.fn f) [] f
  | handler {target h : Val} {passed : List Val} {f : FnId} (hv : ¬ target.isFunction)
    (hh : m.handler? target .call = some h) (rest : Leads m h passed f) :
    Leads m target (target :: passed) f

section Ways

variable {m : Machine F S} {w : View} {target : Val} {limit : Nat}

/-- A function is reached at once. -/
theorem not_isFunction (h : ¬ ∃ passed f, m.Leads target passed f ∧ passed.length ≤ limit) :
    ¬ target.isFunction := by
  intro hv
  cases target with
  | fn f => exact h ⟨[], f, .here f, Nat.zero_le _⟩
  | nil | bool | int | float | str | table | co => cases hv

/-- What is done with a value that is no function. -/
theorem resolve_eq (hv : ¬ target.isFunction) (w : View) (limit : Nat) (m : Machine F S) :
    resolve w target limit m =
      match m.handler? target .call, limit with
      | none, _ => .error (.fault (.notCallable target.kind)) m
      | some _, 0 => .error (.fault (chainFault .call)) m
      | some h, limit + 1 => (do
        record fun _ => .callHandler target.kind
        let w ← insertFront w target
        resolve w h limit : M F S (FnId × View)) m := by
  have hmeta := metamethod_eq target .call m
  have hfn : ∀ f, target ≠ .fn f := fun f hf => hv (hf ▸ rfl)
  cases limit with
  | zero =>
    rw [resolve, bind_of_ok hmeta]
    · cases m.handler? target .call <;> rfl
    · exact hfn
  | succ limit =>
    rw [resolve, bind_of_ok hmeta]
    · cases m.handler? target .call <;> rfl
    · exact hfn

/-- A handler is asked next, with the value before it in front of the arguments. -/
theorem resolve_handler {h : Val} (hv : ¬ target.isFunction) (hh : m.handler? target .call = some h)
    (w : View) (limit : Nat) : ∃ t, resolve w target (limit + 1) m =
      resolve (w.insertFront m.thread.stack target).1 h limit
        (m.restack (w.insertFront m.thread.stack target).2 t) := by
  obtain ⟨x, hx⟩ := record_ok m fun _ => .callHandler target.kind
  obtain ⟨t, ht⟩ := onStack_ok (w.insertFront · target) { m with trace := x }
  refine ⟨t, ?_⟩
  rw [resolve_eq hv, hh]
  dsimp only
  rw [bind_of_ok hx]
  exact bind_of_ok ht

/-- **The way to a function.** The values on the way come in front of the arguments, the last one
first. -/
theorem resolve_leads {passed : List Val} {f : FnId} (h : m.Leads target passed f)
    (hlimit : passed.length ≤ limit) (w : View) (s : Stack) (t : Option (Array TraceEvent)) :
    ∃ w' s' t', resolve w target limit (m.restack s t) = .ok (f, w') (m.restack s' t') ∧
      w'.live (m.restack s' t') = passed.reverse ++ w.live (m.restack s t) := by
  induction h generalizing limit w s t with
  | here f => exact ⟨w, s, t, by rw [resolve_fn]; rfl, rfl⟩
  | @handler target h passed f hv hh rest ih =>
    obtain ⟨limit, rfl⟩ := Nat.exists_eq_add_one_of_ne_zero (Nat.ne_zero_of_lt hlimit)
    obtain ⟨x, hx⟩ := resolve_handler (m := m.restack s t) hv hh w limit
    obtain ⟨w', s', t', hrest, hlive⟩ :=
      ih (Nat.le_of_succ_le_succ hlimit) (w.insertFront s target).1 (w.insertFront s target).2 x
    refine ⟨w', s', t', hx.trans hrest, hlive.trans ?_⟩
    rw [List.reverse_cons, List.append_assoc]
    exact congrArg (passed.reverse ++ ·) (View.live_insertFront w target (m.restack s t) x)

/-- Where no function is reached within the limit, a call is a fault. -/
theorem resolve_astray (h : ¬ ∃ passed f, m.Leads target passed f ∧ passed.length ≤ limit) (w : View)
    (s : Stack) (t : Option (Array TraceEvent)) : ∃ fault s' t',
      resolve w target limit (m.restack s t) = .error (.fault fault) (m.restack s' t') := by
  induction limit generalizing target w s t with
  | zero =>
    rw [resolve_eq (not_isFunction h)]
    cases (m.restack s t).handler? target .call with
    | none => exact ⟨_, s, t, rfl⟩
    | some handler => exact ⟨_, s, t, rfl⟩
  | succ limit ih =>
    have hv := not_isFunction h
    cases hh : m.handler? target .call with
    | none =>
      rw [resolve_eq hv, show (m.restack s t).handler? target .call = none from hh]
      exact ⟨_, s, t, rfl⟩
    | some handler =>
      obtain ⟨x, hx⟩ := resolve_handler (m := m.restack s t) hv hh w limit
      rw [hx]
      refine ih (fun ⟨passed, f, hleads, hle⟩ => h ⟨target :: passed, f, ?_, Nat.succ_le_succ hle⟩) ..
      exact .handler hv hh hleads

end Ways

/-! ## Running a function -/

/-- Unless too many calls are in progress, a call runs a function once, one call deeper, on
arguments as its arity takes them. -/
def Runs (m : Machine F S) [HostFunction F] (f : FnId) (args : List Val)
    (call : Runner F S → M F S Unit) : Prop :=
  ∃ (w : View) (s : Stack) (t : Option (Array TraceEvent)),
    w.live (m.restack s t) = (m.heap.function f).arity.fit args ∧
    ∀ r, call r m =
      if m.world.config.maxCallDepth ≤ m.thread.depth then
        .error (.fault (.stackOverflow m.thread.depth)) (m.restack s t)
      else ensuring (r.run f w) leave (entered (m.restack s t))

section Entering

variable [HostBody F S] {m : Machine F S} {f : FnId} {target : Val} {args : List Val}

omit [HostBody F S] in
/-- Shaping arguments to an arity. -/
theorem shape_live (arity : Arity) (w : View) (m : Machine F S) : ∃ w' s t,
    shape arity w m = .ok w' (m.restack s t) ∧
      w'.live (m.restack s t) = arity.fit (w.live m) := by
  cases arity with
  | fixed n =>
    obtain ⟨t, ht⟩ := onStack_ok (w.fit · n) m
    rw [View.fit_fst] at ht
    exact ⟨⟨w.base, n⟩, _, t, ht, View.live_fit w n m t⟩
  | variadic => exact ⟨w, m.thread.stack, m.trace, rfl, rfl⟩

/-- **One run.** A call runs the function that the handlers of its target lead to. -/
theorem invoke_runs {passed : List Val} (h : m.Leads target passed f)
    (hlimit : passed.length ≤ m.world.config.maxMetaChain) (w : View) :
    m.Runs f (passed.reverse ++ w.live m) fun r => invoke r w target := by
  obtain ⟨w₁, s₁, t₁, hresolve, hlive⟩ := resolve_leads h hlimit w m.thread.stack m.trace
  obtain ⟨w₂, s, t₂, hfit, hshaped⟩ := shape_live (m.heap.function f).arity w₁ (m.restack s₁ t₁)
  obtain ⟨args, u, t, hshape, hcounted⟩ := Regime.invoke_resolved hresolve
  cases hfit.symm.trans hshape
  have hfitted := hshaped.trans (congrArg (m.heap.function f).arity.fit hlive)
  exact ⟨w₂, s, t, hfitted, fun r => (hcounted r).trans (Regime.counted_eq (r.run f w₂) _)⟩

theorem invoke_astray (w : View) (h : ¬ ∃ passed f, m.Leads target passed f ∧
      passed.length ≤ m.world.config.maxMetaChain) : ∃ fault s t, ∀ r : Runner F S,
    invoke r w target m = .error (.fault fault) (m.restack s t) := by
  obtain ⟨fault, s, t, hresolve⟩ := resolve_astray h w m.thread.stack m.trace
  have hconfig : (config : M F S Config) m = .ok m.world.config m := rfl
  exact ⟨fault, s, t, fun r => (bind_of_ok hconfig).trans (bind_of_error hresolve)⟩

end Entering

/-! ## Fresh frames -/

/-- A frame on which a body starts: the parameters are arguments, or nil where there are too few,
and all other registers are nil. -/
structure Fresh (m : Machine F S) (layout : Layout) (args : List Val) (frame : Frame) : Prop where
  index : frame.index = 0
  slots : frame.slots = layout.slots
  top : frame.view.top = layout.params
  params : ∀ i < layout.params,
    frame.view.get m.thread.stack m.heap.cells i = args.getD i .nil
  registers : ∀ i, layout.params ≤ i → i < layout.slots →
    frame.view.slot m.thread.stack i = .nil
  varargs : frame.varargs = if layout.vararg then args.drop layout.params else []

section Frames

variable [HostBody F S] {m : Machine F S} {f : FnId} {layout : Layout}

omit [HostBody F S] in
/-- A window with the arguments as the arity of a body takes them is laid out as a fresh frame. -/
theorem openFrame_fresh {w : View} {args : List Val} (h : w.live m = layout.arity.fit args) :
    ∃ frame s t, openFrame layout w m = .ok frame (m.restack s t) ∧
      (m.restack s t).Fresh layout args frame := by
  obtain ⟨t, hopen⟩ := openFrame_ok layout w m
  refine ⟨_, _, t, hopen, rfl, rfl, rfl, fun i hi => ?_, fun i hi hslots => ?_, ?_⟩
  · have hfit := View.getElem_live (w := ⟨w.base, layout.params⟩)
      (m := m.restack (w.fit m.thread.stack layout.params).2 t) (i := i) (by simpa using hi)
    simp only [View.live_fit, padded_eq, List.getElem_map, List.getElem_range] at hfit
    rw [← Layout.getD_fit hi, ← h, hfit, View.get, View.get, View.slot_eq, View.slot_eq,
      restack_stack, restack_stack, View.slot_clearRange, if_neg (by dsimp only; omega)]
    rfl
  · rw [View.slot_eq, restack_stack, View.slot_clearRange, if_pos (by dsimp only; omega)]
  · dsimp only
    split
    · rename_i hvararg
      rw [View.valuesFrom_eq, h, Layout.fit_vararg hvararg]
    · rfl

/-- The arity of a compiled body follows from its layout. -/
theorem body?_arity {c : Callable F} {n : Nat} {P : Perform F S} {name : String}
    {body : Body F S Unit} (h : c.body? n P f = some (name, layout, body)) :
    c.arity = layout.arity := by
  cases c with
  | closure | routine => cases h; rfl
  | builtin | protectedCall | wrapped | host => cases h

/-- A run of a compiled body starts on a fresh frame. -/
theorem Runs.frame {args : List Val} {call : Runner F S → M F S Unit} (h : m.Runs f args call)
    (hroom : m.thread.depth < m.world.config.maxCallDepth) {n : Nat} {P : Perform F S}
    {name : String} {body : Body F S Unit}
    (hbody : (m.heap.function f).body? n P f = some (name, layout, body)) : ∃ frame s t,
      (entered (m.restack s t)).Fresh layout args frame ∧
      call (runner n P) m = ensuring (runBody f body frame) leave (entered (m.restack s t)) := by
  obtain ⟨w, s, t, hlive, hcall⟩ := h
  rw [body?_arity hbody] at hlive
  obtain ⟨frame, s', t', hopen, hfresh⟩ := openFrame_fresh (m := entered (m.restack s t)) hlive
  refine ⟨frame, s', t', hfresh, (hcall (runner n P)).trans ?_⟩
  have hrun : runFunction n P f w (entered (m.restack s t)) =
      runBody f body frame (entered (m.restack s' t')) :=
    (runFunction_body (m := entered (m.restack s t)) hbody w).trans (bind_of_ok hopen)
  rw [if_neg (Nat.not_le.2 hroom)]
  unfold ensuring runner
  dsimp only
  rw [hrun]

end Frames

/-! ## All calls -/

/-- A call of a target on arguments enters a function. If the handlers of the target lead to one
within the limit, it is run once, on the values on the way, the last one first, and then the
arguments; and if it is a compiled body, it starts on a fresh frame. If they do not, the call is
a fault. -/
structure Enters [HostBody F S] (m : Machine F S) (target : Val) (args : List Val)
    (call : Runner F S → M F S Unit) : Prop where
  runs : ∀ passed f, m.Leads target passed f → passed.length ≤ m.world.config.maxMetaChain →
    m.Runs f (passed.reverse ++ args) call
  frame : ∀ passed f, m.Leads target passed f → passed.length ≤ m.world.config.maxMetaChain →
    m.thread.depth < m.world.config.maxCallDepth → ∀ n P name layout body,
    (m.heap.function f).body? n P f = some (name, layout, body) → ∃ frame s t,
      (entered (m.restack s t)).Fresh layout (passed.reverse ++ args) frame ∧
      call (runner n P) m = ensuring (runBody f body frame) leave (entered (m.restack s t))
  astray : (¬ ∃ passed f, m.Leads target passed f ∧
      passed.length ≤ m.world.config.maxMetaChain) →
    ∃ fault s t, ∀ r, call r m = .error (.fault fault) (m.restack s t)

section Calls

variable [HostBody F S] {m : Machine F S} {target : Val} {args : List Val}

theorem invoke_enters {w : View} (h : w.live m = args) :
    m.Enters target args fun r => invoke r w target where
  runs _ _ hleads hlimit := h ▸ invoke_runs hleads hlimit w
  frame _ _ hleads hlimit hroom _ _ _ _ _ hbody :=
    Runs.frame (h ▸ invoke_runs hleads hlimit w) hroom hbody
  astray h := invoke_astray w h

omit [HostBody F S] in
/-- A coroutine that is resumed for the first time calls its body. -/
theorem resume_fresh {co : CoId} (h : m.heap.coroutine co = .fresh target) (args : List Val)
    (w : View) : ∃ s t, (⟨w.base, args.length⟩ : View).live ((m.turnedTo co).restack s t) = args ∧
      ∀ P : Perform F S, resume P w co args m =
        (attempt (P (.call ⟨w.base, args.length⟩ target)) >>=
          handBack m.thread.current m.thread.boundaries co) ((m.turnedTo co).restack s t) := by
  have hsuspended : (m.heap.coroutine co).status = .suspended := by
    rw [h]
    rfl
  obtain ⟨x, hresume⟩ := resume_eq args hsuspended
  obtain ⟨t, hload⟩ := onStack_ok (w.load · args) { m.turnedTo co with trace := x }
  refine ⟨_, t, View.live_load w (m.turnedTo co) t, fun P => (hresume P w).trans ?_⟩
  rw [h, attempt_bind, attempt_bind]
  have hcall : segment P w args (.fresh target) { m.turnedTo co with trace := x } = _ :=
    bind_of_ok hload
  rw [hcall]
  rfl

end Calls

end Machine

/-- **Entries.** A call of a value with the live slots of a window enters a function on their
values. So does a tail call, with the arguments that it asks for; a protected call, with those
behind its own; and the first resume of a coroutine, with those of the resume. -/
theorem calls_enter [HostBody F S] (target : Val) (args : List Val) (m : Machine F S) :
    (∀ w : View, w.live m = args → (m.Enters target args fun r => invoke r w target) ∧
      ∀ n, perform (n + 1) (.call w target) m =
        (invoke (runner n (perform n)) w target >>= fun _ =>
          drain (runner n (perform n)) w n) m) ∧
    (m.thread.results = .tailCall target args → ∀ w : View, ∃ t, m.Takes w.base args t ∧
      (t.Enters target args fun r => invoke r ⟨w.base, args.length⟩ target) ∧
      ∀ (r : Runner F S) n, drain r w (n + 1) m =
        (invoke r ⟨w.base, args.length⟩ target >>= fun _ =>
          drain r ⟨w.base, args.length⟩ n) t) ∧
    (∀ g p, m.heap.function g = .protectedCall p → ∀ w : View, p.leading ≤ w.top →
      w.get m.thread.stack m.heap.cells 0 = target → (w.live m).drop p.leading = args →
      (m.Enters target args fun r => invoke r (w.child p.leading) target) ∧
      ∀ n, runFunction n (perform n) g w m =
        (attempt (perform n (.call (w.child p.leading) target)) >>=
          Base.settle (perform n) g p (w.child p.leading) (p.messageHandler w m)) m) ∧
    ∀ co, m.heap.coroutine co = .fresh target → ∀ w : View, ∃ s t,
      (((m.turnedTo co).restack s t).Enters target args fun r =>
        invoke r ⟨w.base, args.length⟩ target) ∧
      ∀ P : Perform F S, resume P w co args m =
        (attempt (P (.call ⟨w.base, args.length⟩ target)) >>=
          handBack m.thread.current m.thread.boundaries co) ((m.turnedTo co).restack s t) := by
  refine ⟨fun w hw => ⟨invoke_enters hw, fun n => rfl⟩, fun hresults w => ?_,
    fun g p hg w hleading htarget hargs => ⟨?_, fun n => ?_⟩, fun co hco w => ?_⟩
  · obtain ⟨t, htakes, -, hdrain⟩ := drain_taken hresults w
    exact ⟨t, htakes, invoke_enters htakes.live, hdrain⟩
  · exact invoke_enters ((View.live_child w p.leading m).trans hargs)
  · rw [runFunction_protected hg hleading, htarget]
  · obtain ⟨s, t, hlive, hresume⟩ := resume_fresh hco args w
    exact ⟨s, t, invoke_enters hlive, hresume⟩

end ScriptCore
