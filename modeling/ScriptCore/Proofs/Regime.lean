import ScriptCore.Proofs.Agrees
import ScriptCore.Proofs.Routines
import ScriptCore.Proofs.Watch

/-!
# What holds along a run

A `Regime` for a watch is an invariant of the machine, relative to what is in progress, that
every kind of step keeps and that implies what the watch checks. `Regime.perform_agrees` is the
induction over the engine, done once for all regimes: a request keeps the invariant, evolves the
machine only from its window on, and goes the same way when it is watched.
-/

namespace ScriptCore

open Machine

variable {F S : Type}

/-- The form in which a frame of a function can be suspended. -/
def Callable.Leaves (c : Callable F) (index : Nat) (saved : Saved) : Prop :=
  match c with
  | .closure proto _ => index ≠ 0 ∧ saved.slots.length = proto.layout.slots
  | .routine r => index ≠ 0 ∧ saved.slots.length = r.layout.slots
  | .protectedCall _ => index = 1 ∧ ∃ handler, saved = ⟨[], 0, [handler]⟩
  | .builtin _ | .wrapped _ | .host _ => False

namespace Machine

/-- A machine with one more call in progress. -/
def entered (m : Machine F S) : Machine F S :=
  { m with thread := { m.thread with depth := m.thread.depth + 1 } }

/-- A machine with one more non-resumable call in progress. -/
def bounded (m : Machine F S) : Machine F S :=
  { m with thread := { m.thread with boundaries := m.thread.boundaries + 1 } }

/-- A machine with one more coroutine. -/
def withCoroutine (m : Machine F S) (body : Val) : Machine F S :=
  { m with heap := { m.heap with coroutines := m.heap.coroutines.push (.fresh body) } }

/-- Coroutines, one of which has another state. -/
def turn (cs : Array Coroutine) (co : Option CoId) (c : Coroutine) :
    Array Coroutine :=
  match co with
  | some co => cs.setIfInBounds co.index c
  | none => cs

/-- A machine in which a coroutine has become the running one. -/
def turnedTo (m : Machine F S) (co : CoId) : Machine F S :=
  { m with
    heap := { m.heap with
      coroutines := turn (turn m.heap.coroutines (some co) .running) m.thread.current .normal }
    thread := { m.thread with current := some co, boundaries := 0 } }

/-- A machine in which the coroutine before is the running one again. -/
def turnedBack (m : Machine F S) (outer : Option CoId) (boundaries : Nat) (co : CoId)
    (c : Coroutine) : Machine F S :=
  { m with
    heap := { m.heap with
      coroutines := turn (turn m.heap.coroutines outer .running) (some co) c }
    thread := { m.thread with current := outer, boundaries := boundaries } }

end Machine

/-- An invariant of the machine, relative to what is in progress, that all steps keep. -/
structure Regime (W : Watch F S) where
  inv : List Activity → Machine F S → Prop
  /-- What a suspension carries on its way out. -/
  lost : List Activity → Suspension → Machine F S → Prop
  /-- The suspensions of a run that count. -/
  permits : List Activity → Suspension → Prop
  /-- The faults of a run. -/
  raises : Fault → Prop := fun _ => True
  own : ∀ {f}, (Unwind.fault f).Own → raises f := by intros; trivial
  within : ∀ {acts m}, inv acts m → W.within acts m
  quiet : ∀ {acts m m'}, inv acts m → m.Undisturbed m' → inv acts m'
  lost_quiet : ∀ {acts s m m'}, lost acts s m → m.Undisturbed m' → lost acts s m'
  host : ∀ {acts m} (h : S), inv acts m → inv acts { m with host := h }
  enter : ∀ {acts m} (f : FnId), inv acts m → m.thread.depth < m.world.config.maxCallDepth →
    inv (.call f :: acts) (entered m)
  leave : ∀ {acts m f}, inv (.call f :: acts) m → inv acts (Machine.leave m)
  lost_leave : ∀ {acts s m}, lost acts s m → lost acts s (Machine.leave m)
  enterBoundary : ∀ {acts m}, inv acts m → inv (.boundary :: acts) (bounded m)
  leaveBoundary : ∀ {acts m}, inv (.boundary :: acts) m → inv acts (Machine.leaveBoundary m)
  yield : ∀ {acts m} (values : List Val), inv acts m → m.thread.current.isSome →
    m.thread.boundaries = 0 → lost acts ⟨values, []⟩ m
  yieldNative : ∀ {acts m f} (values : List Val), inv (.call f :: acts) m →
    m.thread.current.isSome → m.thread.boundaries = 0 → lost acts ⟨values, []⟩ m
  permits_yield : ∀ {acts values}, permits acts ⟨values, []⟩ → W.yields acts
  link : ∀ {acts s m f index saved}, lost (.call f :: acts) s m →
    (m.heap.function f).Leaves index saved →
    lost acts ⟨s.values, ⟨f, index, saved⟩ :: s.chain⟩ m
  permits_boundary : ∀ {acts s}, permits (.boundary :: acts) s
  permits_link : ∀ {acts values chain link}, permits acts ⟨values, link :: chain⟩ →
    permits (.call link.function :: acts) ⟨values, chain⟩
  create : ∀ {acts m} (body : Val), inv acts m → inv acts (m.withCoroutine body)
  resume : ∀ {acts m co}, inv acts m → (m.heap.coroutine co).status = .suspended →
    inv (.resume co :: acts) (m.turnedTo co)
  permits_resume : ∀ {acts co s}, permits (.resume co :: acts) s
  returned : ∀ {acts m m' co}, inv acts m → inv (.resume co :: acts) m' →
    inv acts (m'.turnedBack m.thread.current m.thread.boundaries co .dead)
  yielded : ∀ {acts m m' co} {s : Suspension}, inv acts m → inv (.resume co :: acts) m' →
    lost (.resume co :: acts) s m' →
    inv acts (m'.turnedBack m.thread.current m.thread.boundaries co (.suspended s.chain))

/-- The faults of a run may be those of calls that nest too deep. -/
abbrev Regime.Limits {W : Watch F S} (G : Regime W) : Prop :=
  ∀ acts m, G.inv acts m → m.world.config.maxCallDepth ≤ m.thread.depth →
    G.raises (.stackOverflow m.thread.depth)

/-- A host whose functions neither call nor suspend, and disturb no more than their own state. -/
class QuietHost (F S : Type) [HostBody F S] : Prop where
  invoke : ∀ (P P' : Perform F S) (f : FnId) (h : F) (args : View) (m : Machine F S),
    HostBody.invoke P f h args m = HostBody.invoke P' f h args m ∧
    match HostBody.invoke P f h args m with
    | .ok _ m' => m.Still { m' with host := m.host }
    | .error e m' => e.Own ∧ m.Still { m' with host := m.host }
  reenter : ∀ (P P' : Perform F S) (f : FnId) (h : F) (window : View) (index : Nat)
    (saved : Saved) (inner : List Link) (values : List Val) (m : Machine F S),
    HostBody.reenter P f h window index saved inner values m =
      HostBody.reenter P' f h window index saved inner values m ∧
    match HostBody.reenter P f h window index saved inner values m with
    | .ok _ m' => m.Still { m' with host := m.host }
    | .error e m' => e.Own ∧ m.Still { m' with host := m.host }

instance : QuietHost Empty PUnit where
  invoke _ _ _ h := h.elim
  reenter _ _ _ h := h.elim

namespace Regime

variable {W : Watch F S} (G : Regime W)

/-- The bounds of a step of the machine on windows from `base` on, with what its suspensions have
left in progress. -/
def bounds (acts permitted : List Activity) (base : Nat) : Bounds (Machine F S) where
  inv := G.inv acts
  lost u m := G.inv acts m ∧ G.lost permitted u m
  permits := G.permits permitted
  since := Machine.Evolves base
  failed f m m' := G.raises f ∧ G.inv acts m' ∧ m.Evolves base m'
  refl := Machine.Evolves.refl base
  trans := Machine.Evolves.trans
  failed_trans h k := ⟨k.1, k.2.1, h.trans k.2.2⟩

/-- The bounds of a step of a body. A frame keeps its place and its shape. -/
def body (acts : List Activity) : Bounds (Active F S) where
  inv s := G.inv acts s.machine
  lost u s := (G.inv acts s.machine ∧ G.lost acts u s.machine) ∧ s.frame.index ≠ 0
  permits := G.permits acts
  since s t := t.frame.view.base = s.frame.view.base ∧ t.frame.slots = s.frame.slots ∧
    t.frame.varargs = s.frame.varargs ∧ s.machine.Evolves s.frame.view.base t.machine
  failed f s t := G.raises f ∧ G.inv acts t.machine ∧
    s.machine.Evolves s.frame.view.base t.machine
  refl _ := ⟨rfl, rfl, rfl, .refl _ _⟩
  trans h k := ⟨k.1.trans h.1, k.2.1.trans h.2.1, k.2.2.1.trans h.2.2.1,
    h.2.2.2.trans (h.1 ▸ k.2.2.2)⟩
  failed_trans h k := ⟨k.1, k.2.1, h.2.2.2.trans (h.1 ▸ k.2.2)⟩

/-- The invariant holds where a step ends. -/
theorem inv_of_meets {acts permitted : List Activity}
    {base : Nat} {α : Type} {m u : Machine F S} {r r' : EStateM.Result Unwind (Machine F S) α}
    (h : (G.bounds acts permitted base).Meets m r r') (hu : EndsIn r u) : G.inv acts u := by
  cases r with
  | ok a t => obtain rfl := hu; exact h.2.1
  | error e t =>
    obtain ⟨he, rfl⟩ := hu
    cases e with
    | suspend s => exact h.2.1.1
    | fault f => exact h.2.2.1
    | overflow => exact he.elim
    | exhausted => exact he.elim

end Regime

/-! ## Steps that suspend nothing -/

section Quiet

/-- Two runs from one machine that leave the stack and the counters alone. -/
structure Abreast [HostFunction F] (m a b : Machine F S) : Prop where
  core : a.Core b
  left : m.Still a
  right : m.Still b

theorem Abreast.closed [HostFunction F] (m : Machine F S) : Closed (Abreast m) where
  kin h := h.core.toKin
  steady h ha hb hk hr :=
    ⟨h.core.steady ha hb hk hr, h.left.trans ha.toStill, h.right.trans hb.toStill⟩

theorem Abreast.hears [HostFunction F] (m : Machine F S) : Hears (Abreast m) :=
  fun _ _ h => h.core.results

theorem Abreast.admits [HostFunction F] (m : Machine F S) (c : Callable F) :
    Admits (Abreast m) c c := fun a b h =>
  ⟨{ h.core with toKin := h.core.toKin.pushed (.same c) }, h.left.trans (.ofPush a c),
    h.right.trans (.ofPush b c)⟩

theorem Abreast.slot [HostFunction F] {m a b : Machine F S} (h : Abreast m a b) (v : View) (i : Nat) :
    v.slot a.thread.stack i = v.slot b.thread.stack i := by rw [h.left.stack, h.right.stack]

theorem Abreast.shares [HostFunction F] (m : Machine F S) (v : View) : Shares (Abreast m) v v :=
  ⟨rfl, fun h i _ => h.slot v i⟩

/-- A step that runs in step with itself leaves the machine still. -/
theorem Machine.still_of_inStep [HostFunction F] {α : Type} {x : M F S α} {V : α → α → Prop}
    {m : Machine F S} (h : InStep (Abreast m) V x x) :
    (∀ a t, x m = .ok a t → m.Still t) ∧ ∀ e t, x m = .error e t → e.Own ∧ m.Still t := by
  have hx := h m m ⟨.refl m, .refl m, .refl m⟩
  constructor
  · intro a t hxm
    rw [hxm] at hx
    exact hx.2.left
  · intro e t hxm
    rw [hxm] at hx
    exact ⟨hx.2.1, hx.2.2.left⟩

/-- The origin of a run against itself. -/
def Origin.self (m : Machine F S) (base : Nat) : Origin F S where
  left := m
  right := m
  leftBase := base
  rightBase := base
  scope := .all F
  heard := True
  shared _ := False

theorem Origin.oneBody_self (m : Machine F S) (base : Nat) : (Origin.self m base).OneBody :=
  ⟨fun _ => rfl, fun _ => id⟩

theorem Scope.nests_all [HostFunction F] (p : Proto) : (Scope.all F).Nests p p :=
  nests_self fun _ _ _ => trivial

theorem Parted.self [HostFunction F] (m : Machine F S) (base : Nat) : Parted (.self m base) m m :=
  ⟨.refl m, fun _ => rfl, .refl m, .refl m, .refl _ _, .refl _ _, fun _ => trivial, nofun⟩

theorem Twin.self [HostFunction F] (s : Active F S) :
    Twin (.self s.machine s.frame.view.base) (fun _ => True) s.frame s s :=
  { Parted.self s.machine s.frame.view.base with
    leftFrame := rfl, rightFrame := rfl, regs := fun _ _ => rfl, bare := fun _ _ => False.elim }

theorem Windows.self [HostFunction F] (m : Machine F S) (base n : Nat) :
    Windows (.self m base) n m m :=
  { Parted.self m base with slots := fun _ _ => rfl, plain := False.elim }

theorem Parted.evolves [HostFunction F] {m t t' : Machine F S} {base : Nat}
    (h : Parted (.self m base) t t') : m.Evolves base t := h.left.evolves h.leftKept

/-- Every operation corresponds to itself in a run against itself. -/
theorem Corresponds.self [HostFunction F] (m : Machine F S) (base : Nat) (p : Proto) (pc : Nat)
    (op : Op) : Corresponds (.self m base) p p pc pc op op :=
  .refl (Origin.oneBody_self m base) (Scope.nests_all p) pc op

theorem Interpreter.prepare_self [HostFunction F] (function : FnId) (p : Proto) (pc : Nat) (op : Op)
    (s : Active F S) : SameEnd (Apart (.self s.machine s.frame.view.base))
      (Prepared (.self s.machine s.frame.view.base) (fun _ => True) s.frame pc op)
      (prepare function p pc op s) (prepare function p pc op s) :=
  prepare_paired function (.self _ _ p pc op) (fun _ _ => trivial) s s (.self s)

theorem Interpreter.complete_self [HostFunction F] {p : Proto} {pc : Nat} {op : Op}
    (hop : p.code[pc]? = some op) (s : Active F S) :
    SameEnd (Apart (.self s.machine s.frame.view.base))
      (fun _ _ => Advanced (.self s.machine s.frame.view.base) (fun _ => True) s.frame op)
      (complete p pc s) (complete p pc s) :=
  complete_paired trivial (.self _ _ p pc op) hop hop (fun _ => ⟨rfl, rfl⟩) s s (.self s)

end Quiet

namespace Regime

variable {W : Watch F S} (G : Regime W) {acts permitted : List Activity} {base : Nat} {α : Type}

/-- A step that runs in step with itself agrees with itself. -/
theorem still [HostFunction F] {x : M F S α} {V : α → α → Prop}
    (h : ∀ m, InStep (Abreast m) V x x) : Agrees (G.bounds acts permitted base) x x := by
  intro m hm
  obtain ⟨hok, herror⟩ := still_of_inStep (h m)
  refine .self (fun a t hx => ?_) fun e t hx => ?_
  · exact ⟨G.quiet hm (hok a t hx).toUndisturbed, (hok a t hx).evolves⟩
  · obtain ⟨he, ht⟩ := herror e t hx
    exact ⟨he, fun f hf => ⟨G.own hf, G.quiet hm ht.toUndisturbed, ht.evolves⟩⟩

/-- A step on windows that runs in step with itself agrees with itself. -/
theorem windows [HostFunction F] {x : M F S α} {Q : α → α → Machine F S → Machine F S → Prop}
    {m : Machine F S} {n : Nat} (hm : G.inv acts m)
    (h : Paired (Parted (.self m base)) (Windows (.self m base) n) x x Q)
    (hQ : ∀ a b t t', Q a b t t' → Parted (.self m base) t t') :
    (G.bounds acts permitted base).Meets m (x m) (x m) := by
  have hx := h m m (.self m base n)
  refine .self (fun a t hxm => ?_) fun e t hxm => ?_
  · rw [hxm] at hx
    have hp := hQ _ _ _ _ hx
    exact ⟨G.quiet hm hp.left, hp.evolves⟩
  · rw [hxm] at hx
    exact ⟨hx.2.1, fun f hf => ⟨G.own hf, G.quiet hm hx.2.2.left, hx.2.2.evolves⟩⟩

/-- A step of a body that runs in step with itself agrees with itself. -/
theorem steps [HostFunction F] {x : Body F S α} {Q : α → α → Active F S → Active F S → Prop}
    {s : Active F S} (hs : G.inv acts s.machine)
    (h : Paired (Apart (.self s.machine s.frame.view.base))
      (Twin (.self s.machine s.frame.view.base) (fun _ => True) s.frame) x x Q)
    (hQ : ∀ a b t, Q a b t t → Parted (.self s.machine s.frame.view.base) t.machine t.machine ∧
      t.frame.view.base = s.frame.view.base ∧ t.frame.slots = s.frame.slots ∧
      t.frame.varargs = s.frame.varargs) :
    (G.body acts).Meets s (x s) (x s) := by
  have hx := h s s (.self s)
  refine .self (fun a t hxs => ?_) fun e t hxs => ?_
  · rw [hxs] at hx
    obtain ⟨hp, hb, hsl, hv⟩ := hQ _ _ _ hx
    exact ⟨G.quiet hs hp.left, hb, hsl, hv, hp.evolves⟩
  · rw [hxs] at hx
    exact ⟨hx.2.1, fun f hf => ⟨G.own hf, G.quiet hs hx.2.2.left, Parted.evolves hx.2.2⟩⟩

end Regime

/-! ## Bodies -/

/-- The window of a request. -/
def Request.window : Request → View
  | .call window _ => window
  | .replay _ _ window => window

/-- A yield suspends only where the machine is yieldable. -/
theorem Machine.yieldValues_eq {α : Type} (values : List Val) (m : Machine F S) :
    (yieldValues values : M F S α) m =
      if m.thread.current.isNone then .error (.fault .yieldOutsideCoroutine) m
      else if m.thread.boundaries ≠ 0 then
        .error (.fault (.yieldAcrossBoundary "native call")) m
      else .error (.suspend ⟨values, []⟩) m := by
  show (if m.thread.current.isNone then _ else _ : M F S α) m = _
  by_cases h : m.thread.current.isNone
  · rw [if_pos h, if_pos h]; rfl
  · rw [if_neg h, if_neg h]
    show (if m.thread.boundaries ≠ 0 then _ else _ : M F S α) m = _
    by_cases h : m.thread.boundaries ≠ 0
    · rw [if_pos h, if_pos h]; rfl
    · rw [if_neg h, if_neg h]; rfl

namespace Regime

open Interpreter

variable [HostBody F S] {W : Watch F S} (G : Regime W) {acts : List Activity} {α : Type}
variable {P P' : Perform F S}

/-- Requests are carried out within the bounds, and the same by `P'`. -/
def Serves (acts : List Activity) (P P' : Perform F S) : Prop :=
  ∀ request, Agrees (G.bounds acts acts request.window.base) (P request) (P' request)

omit [HostBody F S] in
/-- A step of the machine on windows above the base of a frame. -/
theorem lift_meets {x y : M F S α} {base : Nat} {s : Active F S}
    (h : (G.bounds acts acts base).Meets s.machine (x s.machine) (y s.machine))
    (hbase : s.frame.view.base ≤ base) (hindex : s.frame.index ≠ 0) :
    (G.body acts).Meets s (Body.lift x s) (Body.lift y s) := by
  simp only [Body.lift]
  cases hr : x s.machine with
  | ok a m =>
    rw [hr] at h
    obtain ⟨hy, hinv, hsince⟩ := h
    rw [hy]
    exact ⟨rfl, hinv, rfl, rfl, rfl, hsince.mono hbase⟩
  | error e m =>
    rw [hr] at h
    cases e with
    | suspend u =>
      exact ⟨fun hu => by rw [h.1 hu], ⟨h.2.1, hindex⟩, rfl, rfl, rfl, h.2.2.mono hbase⟩
    | fault f => exact ⟨by rw [h.1], h.2.1, h.2.2.1, h.2.2.2.mono hbase⟩
    | overflow => rw [show y s.machine = .error .overflow m from h]; rfl
    | exhausted => rw [show y s.machine = .error .exhausted m from h]; rfl

/-- A step of the machine below a frame that runs in step with itself. -/
theorem lifted {x : M F S α} {V : α → α → Prop} (h : ∀ m, InStep (Abreast m) V x x) :
    Agrees (G.body acts) (Body.lift x) (Body.lift x) := by
  intro s hs
  obtain ⟨hok, herror⟩ := still_of_inStep (h s.machine)
  refine .self (fun a t hx => ?_) fun e t hx => ?_
  · simp only [Body.lift] at hx
    split at hx <;> cases hx
    rename_i hx
    exact ⟨G.quiet hs (hok _ _ hx).toUndisturbed, rfl, rfl, rfl, (hok _ _ hx).evolves⟩
  · simp only [Body.lift] at hx
    split at hx <;> cases hx
    rename_i hx
    obtain ⟨he, ht⟩ := herror _ _ hx
    exact ⟨he, fun f hf => ⟨G.own hf, G.quiet hs ht.toUndisturbed, ht.evolves⟩⟩

theorem advanced {o : Origin F S} {K : Nat → Prop} {f : Frame} {op : Op} {t : Active F S}
    (h : Advanced o K f op t t) : Parted o t.machine t.machine ∧
      t.frame.view.base = o.leftBase ∧ t.frame.slots = f.slots ∧ t.frame.varargs = f.varargs := by
  obtain ⟨g, hs, hv, -, -, hg⟩ := h
  rw [hg.leftFrame]
  exact ⟨hg.toParted, rfl, hs, hv⟩

/-- A prepared call has its window above the base of the frame and remembers where to go on. -/
theorem prepared_ask {function : FnId} {proto : Proto} {pc : Nat} {op : Op} {s t : Active F S}
    {w : View} {target : Val}
    (h : prepare function proto pc op s = .ok (.ask w target) t) :
    t.frame.index = pc + 1 ∧ t.frame.view.base ≤ w.base := by
  have hx := prepare_self function proto pc op s
  rw [h] at hx
  obtain ⟨-, -, ht, n, hw⟩ := hx
  rw [ht.leftFrame, hw.left]
  exact ⟨rfl, Nat.le_add_right _ _⟩

theorem prepare_meets (function : FnId) (proto : Proto) (pc : Nat) (op : Op) {s : Active F S}
    (hs : G.inv acts s.machine) :
    (G.body acts).Meets s (prepare function proto pc op s) (prepare function proto pc op s) := by
  refine G.steps hs (prepare_paired function (.self _ _ proto pc op) fun _ _ => trivial)
    fun a b t h => ?_
  cases a <;> cases b
  case goto.goto => exact advanced h.2.2
  case done.done =>
    obtain ⟨h, -⟩ : Twin _ _ _ t t ∧ _ := h
    rw [h.leftFrame]
    exact ⟨h.toParted, rfl, rfl, rfl⟩
  case ask.ask =>
    obtain ⟨-, -, ht, -⟩ := h
    rw [ht.leftFrame]
    exact ⟨ht.toParted, rfl, rfl, rfl⟩
  all_goals exact h.elim

theorem complete_agrees (proto : Proto) (pc : Nat) :
    Agrees (G.body acts) (complete proto pc) (complete proto pc) := by
  cases hop : proto.code[pc]? with
  | none =>
    have hc : (complete proto pc : Body F S Unit) =
        Body.lift (violate (.pastCode proto.name pc)) := by simp [complete, hop]
    rw [hc]
    exact G.lifted fun _ => violate_inStep (V := Eq) _
  | some op =>
    exact fun s hs => G.steps hs (complete_paired trivial (.self _ _ proto pc op) hop hop
      fun _ => ⟨rfl, rfl⟩) fun a b t h => advanced h

theorem execute_meets (hP : G.Serves acts P P') (function : FnId) {proto : Proto} {pc : Nat}
    {op : Op} (hop : proto.code[pc]? = some op) :
    Agrees (G.body acts) (execute P function proto pc op) (execute P' function proto pc op) := by
  intro s hs
  rw [execute_eq P function hop, execute_eq P' function hop]
  refine (G.prepare_meets function proto pc op hs).bind fun turn t hturn ht _ => ?_
  cases turn with
  | goto p => exact Agrees.pure _ t ht
  | done => exact Agrees.pure _ t ht
  | ask w target =>
    obtain ⟨hindex, hbase⟩ := prepared_ask hturn
    refine (G.lift_meets (hP (.call w target) t.machine ht) hbase (by omega)).bind
      fun _ t _ ht _ => ?_
    exact (G.complete_agrees proto pc).bind (fun _ => Agrees.pure _) t ht

theorem loop_agrees (hP : G.Serves acts P P') (function : FnId) (proto : Proto) (fuel pc : Nat) :
    Agrees (G.body acts) (loop P function proto fuel pc) (loop P' function proto fuel pc) := by
  induction fuel generalizing pc with
  | zero => exact fun _ _ => rfl
  | succ fuel ih =>
    unfold loop
    cases hop : proto.code[pc]? with
    | none => exact G.lifted fun m => giveAll_inStep (Abreast.closed m) []
    | some op =>
      refine (G.execute_meets hP function hop).bind fun next => ?_
      cases next with
      | goto pc => exact ih pc
      | done => exact Agrees.pure _

/-- A step of a body that keeps its frame and runs in step with itself. -/
theorem stays {x : Body F S α} {K : Nat → Prop}
    (h : ∀ (o : Origin F S) (f : Frame), o.heard → o.OneBody →
      Paired (Apart o) (Twin o (fun _ => True) f) x x fun u v a b => u = v ∧ Twin o K f a b) :
    Agrees (G.body acts) x x := by
  intro s hs
  refine G.steps hs (h _ _ trivial (Origin.oneBody_self _ _)) fun a b t hab => ?_
  rw [hab.2.leftFrame]
  exact ⟨hab.2.toParted, rfl, rfl, rfl⟩

omit [HostBody F S] in
/-- Reading the frame. -/
theorem frame_meets {f g : Frame → Body F S α} {s : Active F S}
    (h : (G.body acts).Meets s (f s.frame s) (g s.frame s)) :
    (G.body acts).Meets s ((Body.frame >>= f) s) ((Body.frame >>= g) s) := h

theorem run_agrees (hP : G.Serves acts P P') (fuel : Nat) (function : FnId) (proto : Proto) :
    Agrees (G.body acts) (Interpreter.run fuel P function proto)
      (Interpreter.run fuel P' function proto) := by
  intro s hs
  refine G.frame_meets ?_
  show (G.body acts).Meets s ((if s.frame.index = 0 then _ else _ : Body F S Unit) s)
    ((if s.frame.index = 0 then _ else _ : Body F S Unit) s)
  split
  · exact Agrees.bind (G.stays fun o f _ ho => reifyParams_paired proto 0 _ (fun _ _ _ => trivial)
      fun i _ => ho.bare i)
      (fun _ => G.loop_agrees hP function proto fuel 0) s hs
  · exact (G.complete_agrees proto _).bind (fun _ => G.loop_agrees hP function proto fuel _) s hs

/-! ### Hand-written bodies -/

theorem turned_ask {o : Origin F S} {K : Nat → Prop} {f : Frame} {offset : Nat} {w : View}
    {target : Val} {t : Active F S}
    (h : Routine.Turned o K f offset (.ask w target) (.ask w target) t t) :
    t.frame.index = 1 ∧ t.frame.view.base ≤ w.base := by
  obtain ⟨-, ht, n, hw⟩ := h
  rw [ht.leftFrame, hw.left]
  exact ⟨rfl, Nat.le_add_right _ _⟩

/-- A body up to its only call. -/
theorem callOnce_meets (hP : G.Serves acts P P') {turn : Body F S Turn} {offset : Nat}
    {rest rest' : Body F S Unit} {s : Active F S} (hs : G.inv acts s.machine)
    (hturn : Paired (Apart (.self s.machine s.frame.view.base))
      (Twin (.self s.machine s.frame.view.base) (fun _ => True) s.frame) turn turn
      (Routine.Turned (.self s.machine s.frame.view.base) (fun _ => True) s.frame offset))
    (hrest : Agrees (G.body acts) rest rest') :
    (G.body acts).Meets s ((turn >>= Routine.callOnce P rest) s)
      ((turn >>= Routine.callOnce P' rest') s) := by
  refine Bounds.Meets.bind (G.steps hs hturn fun a b t h => ?_) fun a t hat ht _ => ?_
  · cases a <;> cases b
    case done.done =>
      have h : Twin _ _ _ t t := h
      rw [h.leftFrame]
      exact ⟨h.toParted, rfl, rfl, rfl⟩
    case ask.ask =>
      obtain ⟨-, ht, -⟩ := h
      rw [ht.leftFrame]
      exact ⟨ht.toParted, rfl, rfl, rfl⟩
    all_goals exact h.elim
  · have hx := hturn s s (.self s)
    rw [hat] at hx
    cases a with
    | goto p => exact Agrees.pure _ t ht
    | done => exact Agrees.pure _ t ht
    | ask w target =>
      obtain ⟨hindex, hbase⟩ := turned_ask hx
      exact (G.lift_meets (hP (.call w target) t.machine ht) hbase (by omega)).bind
        fun _ t _ ht _ => hrest t ht

theorem recurse_agrees (hP : G.Serves acts P P') (packed : Bool) :
    Agrees (G.body acts) (Routine.runRecurse P packed) (Routine.runRecurse P' packed) := by
  intro s hs
  have hend : Agrees (G.body acts) (Routine.recurseEnd : Body F S Unit) Routine.recurseEnd :=
    G.stays fun o f ho _ => Routine.recurseEnd_paired ho
  rw [Routine.runRecurse_eq, Routine.runRecurse_eq]
  refine G.frame_meets ?_
  split
  · exact G.callOnce_meets hP hs
      (Routine.recurseTurn_paired (Origin.oneBody_self _ _) packed rfl fun _ => ⟨trivial, trivial⟩) hend
  · split
    · exact hend s hs
    · exact Agrees.bind (G.lifted fun _ => violate_inStep (V := Eq) _) (fun _ => hend) s hs

theorem sumFrom_agrees (hP : G.Serves acts P P') (add3 : Val) (n : Int64) (fuel : Nat) :
    Agrees (G.body acts) (Routine.sumFrom P add3 n fuel) (Routine.sumFrom P' add3 n fuel) := by
  induction fuel with
  | zero => exact fun _ _ => rfl
  | succ fuel ih =>
    rw [Routine.sumFrom_succ, Routine.sumFrom_succ]
    refine Agrees.bind (G.stays fun o f _ _ => Routine.sumCount_paired add3 trivial) fun i s hs => ?_
    exact G.callOnce_meets hP hs (Routine.sumTurn_paired (Origin.oneBody_self _ _) add3 n i trivial)
      ((G.stays fun o f ho _ => Routine.takeSum_paired ho i).bind fun _ => ih)

theorem sharedSum_agrees (hP : G.Serves acts P P') (fuel : Nat) (add3 : Val) :
    Agrees (G.body acts) (Routine.runSharedSum fuel P add3)
      (Routine.runSharedSum fuel P' add3) := by
  intro s hs
  refine G.frame_meets ?_
  refine Agrees.bind (G.stays fun o f ho _ => Routine.sumEntry_paired ho add3 _ fun _ => trivial)
    (fun _ => ?_) s hs
  refine Agrees.bind (G.stays fun o f _ _ => Body.getSlot_paired (K := fun _ => True) trivial)
    fun v => ?_
  exact Agrees.bind (G.lifted fun _ => Routine.integer_inStep _ _) fun n =>
    G.sumFrom_agrees hP add3 n fuel

omit [HostBody F S] in
/-- A yield suspends as the watch lets it. -/
theorem yieldValues_meets (values : List Val) {permitted : List Activity} {base : Nat}
    {m : Machine F S} (hm : G.inv acts m)
    (hlost : m.thread.current.isSome → m.thread.boundaries = 0 →
      G.lost permitted ⟨values, []⟩ m) :
    (G.bounds acts permitted base).Meets m (yieldValues values m)
      (W.suspending permitted (yieldValues values) m) := by
  unfold Watch.suspending
  rw [yieldValues_eq]
  split
  · exact ⟨rfl, G.own trivial, hm, .refl _ _⟩
  · rename_i hcurrent
    split
    · exact ⟨rfl, G.own trivial, hm, .refl _ _⟩
    · rename_i hboundaries
      refine ⟨fun hp => if_pos (G.permits_yield hp), ⟨hm, hlost ?_ ?_⟩, .refl _ _⟩
      · cases h : m.thread.current with
        | none => exact (hcurrent (by rw [h]; rfl)).elim
        | some co => rfl
      · exact Decidable.of_not_not hboundaries

theorem echo_agrees : Agrees (G.body acts) (Routine.runEcho : Body F S Unit) (W.echo acts) := by
  have hinput : ∀ index, Agrees (G.body acts) (Routine.echoInput index : Body F S Val)
      (Routine.echoInput index) := by
    intro index
    unfold Routine.echoInput
    split
    · exact G.stays fun o f _ _ => Body.getSlot_paired (K := fun _ => True) trivial
    · exact G.lifted fun m => result_inStep (Abreast.hears m) 0
    · exact G.lifted fun _ => violate_inStep (V := Eq) _
  intro s hs
  refine G.frame_meets ((hinput _).bind (fun v => ?_) s hs)
  refine (G.lifted fun _ => Routine.successor_inStep v).bind fun next s hs => ?_
  exact G.lift_meets (s := ⟨{ s.frame with index := 1 }, s.machine⟩)
    (G.yieldValues_meets [next] hs (G.yield [next] hs)) (Nat.le_refl _) Nat.one_ne_zero

theorem routine_agrees (hP : G.Serves acts P P') (fuel : Nat) (r : Routine) :
    Agrees (G.body acts) (r.run fuel P) (W.routine P' acts fuel r) := by
  cases r with
  | recurse packed => exact G.recurse_agrees hP packed
  | tailStep => exact G.stays fun o f _ _ => Routine.runTailStep_paired fun _ _ => trivial
  | bounce => exact G.stays fun o f _ _ => Routine.runBounce_paired fun _ _ => trivial
  | sharedSum add3 => exact G.sharedSum_agrees hP fuel add3
  | echo => exact G.echo_agrees

end Regime

end ScriptCore
