import ScriptCore.Proofs.PausedFunctions
import ScriptCore.Proofs.Transparency

/-!
# More fuel

Fuel bounds how far a run can go and is no part of what it does: a run that ends with some fuel ends
in the same way with more (`perform_outlasts`). Running out of it is passed on by everything that
handles the ending of another step.

The same holds of a run that is given up where the calls reach their limit: `roomy` carries out
requests up to the first stack overflow, and as long as there is none does what `perform` does
(`roomy_outlasts`).
-/

namespace ScriptCore

open Machine

section Outlasts

variable {σ α β : Type}

instance (r : EStateM.Result Unwind σ α) : Decidable (Exhausted r) :=
  match r with
  | .ok _ _ => .isFalse nofun
  | .error .exhausted t => .isTrue ⟨t, rfl⟩
  | .error (.fault _) _ | .error (.suspend _) _ | .error .overflow _ => .isFalse nofun

/-- What a run may be given up for: want of fuel, or too many calls in progress. -/
inductive Limit
  | fuel
  | depth

namespace Limit

/-- How a run ends that is given up. -/
def cause : Limit → Unwind
  | .fuel => .exhausted
  | .depth => .overflow

/-- How much fuel two runs may have of which one may be given up. -/
def Fuels : Limit → Nat → Nat → Prop
  | .fuel, n, n' => n ≤ n'
  | .depth, n, n' => n = n'

theorem Fuels.of_succ {c : Limit} {n n' : Nat} (h : c.Fuels (n + 1) n') :
    ∃ k, n' = k + 1 ∧ c.Fuels n k := by
  cases c with
  | fuel =>
    obtain ⟨k, rfl⟩ := Nat.exists_eq_add_of_lt h
    exact ⟨n + k, rfl, Nat.le_add_right n k⟩
  | depth => exact ⟨n, h.symm, rfl⟩

/-- What is made of the ending of a step, and gives up where the step was given up. -/
def Passes {F S α β : Type} (k : Except Unwind α → M F S β) : Prop :=
  ∀ c : Limit, ∀ m, ∃ m', k (.error c.cause) m = .error c.cause m'

theorem Passes.of_throw {F S α β : Type} {k : Except Unwind α → M F S β}
    (hoverflow : k (.error .overflow) = throw .overflow)
    (hexhausted : k (.error .exhausted) = throw .exhausted) : Passes k := by
  intro c m
  cases c with
  | fuel => exact ⟨m, congrFun hexhausted m⟩
  | depth => exact ⟨m, congrFun hoverflow m⟩

end Limit

/-- Unless `x` is given up, `y` does what it does. -/
def Outlasts (c : Limit) (x y : EStateM Unwind σ α) : Prop :=
  ∀ s, (∃ t, x s = .error c.cause t) ∨ x s = y s

namespace Outlasts

variable {c : Limit} {x y : EStateM Unwind σ α} {f g : α → EStateM Unwind σ β}

theorem refl (x : EStateM Unwind σ α) : Outlasts c x x := fun _ => .inr rfl

/-- What is out of fuel. -/
theorem zero {n : Nat} (hn : c.Fuels 0 n) {y : Nat → EStateM Unwind σ α}
    (hy : y 0 = throw .exhausted) : Outlasts c (throw .exhausted) (y n) := by
  cases c with
  | fuel => exact fun s => .inl ⟨s, rfl⟩
  | depth =>
    obtain rfl : 0 = n := hn
    rw [hy]
    exact refl _

theorem bind (hx : Outlasts c x y) (hf : ∀ a, Outlasts c (f a) (g a)) :
    Outlasts c (x >>= f) (y >>= g) := by
  intro s
  obtain ⟨t, ht⟩ | heq := hx s
  · exact .inl ⟨t, bind_of_error ht⟩
  · cases hxs : x s with
    | ok a t =>
      rw [bind_of_ok hxs, bind_of_ok (heq.symm.trans hxs)]
      exact hf a t
    | error e t =>
      rw [bind_of_error hxs, bind_of_error (heq.symm.trans hxs)]
      exact .inr rfl

/-- A step that is outlasted, and then the same. -/
theorem andThen (hx : Outlasts c x y) (f : α → EStateM Unwind σ β) :
    Outlasts c (x >>= f) (y >>= f) := hx.bind fun a => .refl (f a)

/-- A step, and then what is outlasted. -/
theorem after (x : EStateM Unwind σ α) (hf : ∀ a, Outlasts c (f a) (g a)) :
    Outlasts c (x >>= f) (x >>= g) := (refl x).bind hf

theorem trans {z : EStateM Unwind σ α} (hxy : Outlasts c x y) (hyz : Outlasts c y z) :
    Outlasts c x z := fun s => by
  obtain hx | hx := hxy s
  · exact .inl hx
  · rw [hx]
    exact hyz s

theorem ite {p : Prop} [Decidable p] {x y x' y' : EStateM Unwind σ α} (h : Outlasts c x y)
    (h' : Outlasts c x' y') : Outlasts c (if p then x else x') (if p then y else y') := by
  split
  · exact h
  · exact h'

end Outlasts

end Outlasts

section Steps

variable {F S α β : Type} {c : Limit} {x y : M F S α}

/-- An attempt, where running out of fuel is passed on. -/
theorem Outlasts.attempt {k l : Except Unwind α → M F S β} (hx : Outlasts c x y)
    (hk : ∀ r, Outlasts c (k r) (l r)) (hthrow : Limit.Passes k) :
    Outlasts c (attempt x >>= k) (attempt y >>= l) := by
  intro m
  rw [attempt_ended, attempt_ended]
  obtain ⟨t, ht⟩ | heq := hx m
  · rw [ht]
    exact .inl (hthrow c t)
  · rw [← heq]
    cases x m with
    | ok a t => exact hk (.ok a) t
    | error e t => exact hk (.error e) t

theorem Outlasts.ensuring (hx : Outlasts c x y) (after : Machine F S → Machine F S) :
    Outlasts c (ensuring x after) (ensuring y after) := by
  intro m
  unfold Machine.ensuring
  obtain ⟨t, ht⟩ | heq := hx m
  · rw [ht]
    exact .inl ⟨after t, rfl⟩
  · rw [heq]
    exact .inr rfl

theorem Outlasts.lift (hx : Outlasts c x y) : Outlasts c (Body.lift x) (Body.lift y) := by
  rintro ⟨frame, m⟩
  unfold Body.lift
  dsimp only
  obtain ⟨t, ht⟩ | heq := hx m
  · rw [ht]
    exact .inl ⟨⟨frame, t⟩, rfl⟩
  · rw [heq]
    exact .inr rfl

theorem Outlasts.runBody {body body' : Body Empty PUnit Unit} (h : Outlasts c body body')
    (function : FnId) (frame : Frame) :
    Outlasts c (runBody function body frame) (runBody function body' frame) := by
  intro m
  rw [runBody_eq, runBody_eq]
  obtain ⟨s, hs⟩ | heq := h ⟨frame, m⟩
  · rw [hs]
    exact .inl ⟨s.machine, by cases c <;> rfl⟩
  · rw [heq]
    exact .inr rfl

end Steps

/-! ## What asks for requests -/

section Requests

variable {c : Limit} {P P' : Perform Empty PUnit} (hP : ∀ request, Outlasts c (P request) (P' request))

include hP

theorem callNonresumable_outlasts (w : View) (target : Val) (name : String) :
    Outlasts c (callNonresumable P w target name) (callNonresumable P' w target name) :=
  .after _ fun _ => ((hP _).ensuring leaveBoundary).attempt (fun _ => .refl _) (.of_throw rfl rfl)

theorem display_outlasts (w : View) (v : Val) : Outlasts c (Base.display P w v) (Base.display P' w v) := by
  refine .after _ fun h? => ?_
  cases h? with
  | none => exact .refl _
  | some handler => exact .after _ fun w => (callNonresumable_outlasts hP w handler _).andThen _

theorem line_outlasts (w : View) (values : List Val) :
    Outlasts c (Base.line P w values) (Base.line P' w values) := by
  induction values with
  | nil => exact .refl _
  | cons v values ih => exact (display_outlasts hP w v).bind fun text => ih.andThen _

theorem handled_outlasts (w : View) (handler v : Val) :
    Outlasts c (Base.handled P w handler v) (Base.handled P' w handler v) :=
  .after _ fun w => (callNonresumable_outlasts hP w handler _).attempt (fun _ => .refl _)
    (.of_throw rfl rfl)

/-- A request under protection, and what is made of its ending. -/
theorem guarded_outlasts (function : FnId) (p : Protection) (w : View) (handler : Val)
    (request : Request) :
    Outlasts c (attempt (P request) >>= Base.settle P function p w handler)
      (attempt (P' request) >>= Base.settle P' function p w handler) := by
  refine (hP request).attempt (fun ending => ?_) (.of_throw rfl rfl)
  cases ending with
  | ok => exact .refl _
  | error e =>
    cases e with
    | fault f =>
      unfold Base.settle
      dsimp only
      split
      · refine .after _ fun m => .after _ fun _ => ?_
        cases p with
        | plain => exact .refl _
        | handler => exact (handled_outlasts hP w handler f.value).andThen _
      · exact .refl _
    | suspend | overflow | exhausted => exact .refl _

theorem protectedCall_outlasts (function : FnId) (p : Protection) (w : View) :
    Outlasts c (Base.protectedCall P function p w) (Base.protectedCall P' function p w) := by
  refine .after _ fun target => ?_
  cases p with
  | plain => exact guarded_outlasts hP function .plain _ _ _
  | handler => exact .after _ fun handler => guarded_outlasts hP function .handler _ _ _

theorem resumeProtected_outlasts (function : FnId) (p : Protection) (w : View) (index : Nat)
    (saved : Saved) (inner : List Link) (values : List Val) :
    Outlasts c (Base.resumeProtected P function p w index saved inner values)
      (Base.resumeProtected P' function p w index saved inner values) := by
  unfold Base.resumeProtected
  exact .ite (.refl _) (guarded_outlasts hP function p _ _ _)

/-! ## Coroutines -/

omit hP in
theorem handBack_passes (outer : Option CoId) (boundaries : Nat) (co : CoId) :
    Limit.Passes (handBack outer boundaries co : _ → M Empty PUnit Outcome) := fun c m => by
  obtain ⟨t, ht⟩ := handBack_throw outer boundaries co m (e := c.cause) (by cases c <;> exact id)
  exact ⟨_, ht⟩

omit hP in
theorem resumeWith_outlasts (co : CoId) (n : Nat) {x y : M Empty PUnit Unit} (h : Outlasts c x y) :
    Outlasts c (resumeWith co n x) (resumeWith co n y) := by
  intro m
  obtain ⟨t, ht⟩ := resumeWith_eq co n m
  rw [ht, ht]
  exact h.attempt (fun _ => .refl _) (handBack_passes _ _ co) _

theorem resume_outlasts (w : View) (co : CoId) (values : List Val) :
    Outlasts c (resume P w co values) (resume P' w co values) := by
  refine .after _ fun c => ?_
  cases c with
  | fresh body => exact resumeWith_outlasts co _ (.after _ fun w => hP _)
  | suspended chain => exact resumeWith_outlasts co _ (hP _)
  | running | normal | dead => exact .refl _

theorem runBuiltin_outlasts (b : Builtin) (w : View) :
    Outlasts c (runBuiltin P b w) (runBuiltin P' b w) := by
  cases b with
  | tostring => exact .after _ fun v => (display_outlasts hP _ v).andThen _
  | print => exact .after _ fun values => (line_outlasts hP _ values).andThen _
  | resume =>
    exact .after _ fun co => .after _ fun values =>
      (resume_outlasts hP _ co values).attempt (fun _ => .refl _) (.of_throw rfl rfl)
  | _ => exact .refl _

/-! ## Bodies -/

namespace Interpreter

theorem finish_outlasts (p : Proto) (pc : Nat) (turn : Turn) :
    Outlasts c (finish P p pc turn) (finish P' p pc turn) := by
  cases turn with
  | ask w target => exact (hP _).lift.andThen _
  | goto | done => exact .refl _

theorem loop_outlasts (function : FnId) (p : Proto) {n n' : Nat} (hn : c.Fuels n n') (pc : Nat) :
    Outlasts c (loop P function p n pc) (loop P' function p n' pc) := by
  induction n generalizing n' pc with
  | zero => exact .zero hn (y := fun n' => loop P' function p n' pc) rfl
  | succ n ih =>
    obtain ⟨n', rfl, hle⟩ := hn.of_succ
    unfold loop
    cases hop : p.code[pc]? with
    | none => exact .refl _
    | some op =>
      dsimp only
      rw [execute_eq _ _ hop, execute_eq _ _ hop]
      refine (Outlasts.after _ fun turn => finish_outlasts hP p pc turn).bind fun next => ?_
      cases next with
      | goto pc => exact ih hle pc
      | done => exact .refl _

theorem run_outlasts (function : FnId) (p : Proto) {n n' : Nat} (hn : c.Fuels n n') :
    Outlasts c (run n P function p) (run n' P' function p) :=
  .after _ fun _ => .ite (.after _ fun _ => loop_outlasts hP function p hn 0)
    (.after _ fun _ => loop_outlasts hP function p hn _)

end Interpreter

namespace Routine

theorem callOnce_outlasts {rest rest' : Body Empty PUnit Unit} (h : Outlasts c rest rest')
    (turn : Interpreter.Turn) : Outlasts c (callOnce P rest turn) (callOnce P' rest' turn) := by
  cases turn with
  | ask w target => exact (hP _).lift.bind fun _ => h
  | goto | done => exact .refl _

theorem sumFrom_outlasts (add3 : Val) (count : Int64) {n n' : Nat} (hn : c.Fuels n n') :
    Outlasts c (sumFrom P add3 count n) (sumFrom P' add3 count n') := by
  induction n generalizing n' with
  | zero => exact .zero hn rfl
  | succ n ih =>
    obtain ⟨n', rfl, hle⟩ := hn.of_succ
    rw [sumFrom_succ, sumFrom_succ]
    exact .after _ fun i => .after _ fun turn =>
      callOnce_outlasts hP (.after _ fun _ => ih hle) turn

theorem run_outlasts (r : Routine) {n n' : Nat} (hn : c.Fuels n n') :
    Outlasts c (r.run n P) (r.run n' P') := by
  cases r with
  | recurse packed =>
    show Outlasts c (runRecurse P packed) (runRecurse P' packed)
    rw [runRecurse_eq, runRecurse_eq]
    exact .after _ fun frame => .ite
      (.after _ fun turn => callOnce_outlasts hP (.refl _) turn) (.refl _)
  | sharedSum add3 =>
    exact .after _ fun frame => .after _ fun _ => .after _ fun v => .after _ fun count =>
      sumFrom_outlasts hP add3 count hn
  | tailStep | bounce | echo => exact .refl _

end Routine

/-! ## Functions and calls -/

omit hP in
theorem enterBody_outlasts (function : FnId) (layout : Layout) {body body' : Body Empty PUnit Unit}
    (h : Outlasts c body body') (w : View) :
    Outlasts c (enterBody function layout body w) (enterBody function layout body' w) :=
  .after _ fun frame => h.runBody function frame

theorem reenterBody_outlasts (function : FnId) (name : String) (layout : Layout)
    {body body' : Body Empty PUnit Unit} (h : Outlasts c body body') (w : View) (index : Nat)
    (saved : Saved) (inner : List Link) (values : List Val) :
    Outlasts c (reenterBody P function name layout body w index saved inner values)
      (reenterBody P' function name layout body' w index saved inner values) := by
  unfold reenterBody
  refine .ite (.refl _) (.after _ fun frame => .after _ fun scratch => ?_)
  refine (hP _).attempt (fun ending => ?_) (.of_throw rfl rfl)
  cases ending with
  | ok => exact h.runBody function frame
  | error e => cases e <;> exact .refl _

variable {n n' : Nat} (hn : c.Fuels n n')

include hn

theorem runFunction_outlasts (f : FnId) (w : View) :
    Outlasts c (runFunction n P f w) (runFunction n' P' f w) := by
  refine .after _ fun c => ?_
  cases c with
  | closure p cells => exact enterBody_outlasts f p.layout (Interpreter.run_outlasts hP f p hn) w
  | builtin b => exact runBuiltin_outlasts hP b w
  | protectedCall p => exact protectedCall_outlasts hP f p w
  | wrapped co => exact .after _ fun values => (resume_outlasts hP _ co values).andThen _
  | routine r => exact enterBody_outlasts f r.layout (Routine.run_outlasts hP r hn) w
  | host h => exact h.elim

theorem reenterFunction_outlasts (link : Link) (inner : List Link) (values : List Val) (w : View) :
    Outlasts c (reenterFunction n P link inner values w) (reenterFunction n' P' link inner values w) := by
  refine .after _ fun c => ?_
  cases c with
  | closure p cells =>
    exact reenterBody_outlasts hP _ _ p.layout (Interpreter.run_outlasts hP _ p hn) w _ _ _ _
  | protectedCall p => exact resumeProtected_outlasts hP _ p w _ _ _ _
  | routine r => exact reenterBody_outlasts hP _ _ r.layout (Routine.run_outlasts hP r hn) w _ _ _ _
  | host h => exact h.elim
  | builtin | wrapped => exact .refl _

theorem invoke_outlasts (w : View) (target : Val) :
    Outlasts c (invoke (runner n P) w target) (invoke (runner n' P') w target) :=
  .after _ fun _ => .after _ fun found => .after _ fun _ => .after _ fun w => .after _ fun _ =>
    .after _ fun _ => .after _ fun _ => (runFunction_outlasts hP hn found.1 w).ensuring leave

theorem drain_outlasts (w : View) {l l' : Nat} (hl : c.Fuels l l') :
    Outlasts c (drain (runner n P) w l) (drain (runner n' P') w l') := by
  induction l generalizing l' w with
  | zero => exact .zero hl (y := fun l' => drain (runner n' P') w l') rfl
  | succ l ih =>
    obtain ⟨l', rfl, hle⟩ := hl.of_succ
    refine .after _ fun target? => ?_
    cases target? with
    | none => exact .refl _
    | some target =>
      exact .after _ fun _ => .after _ fun w => .after _ fun _ =>
        (invoke_outlasts hP hn w target).bind fun _ => ih w hle

theorem step_outlasts (request : Request) :
    Outlasts c (step (runner n P) n request) (step (runner n' P') n' request) := by
  cases request with
  | call w target => exact (invoke_outlasts hP hn w target).bind fun _ => drain_outlasts hP hn w hn
  | replay links values w =>
    cases links with
    | nil => exact .refl _
    | cons link inner =>
      refine .bind (.after _ fun _ => .after _ fun _ => .after _ fun _ => ?_)
        fun _ => drain_outlasts hP hn w hn
      exact (reenterFunction_outlasts hP hn link inner values w).ensuring leave

end Requests

/-- **More fuel.** A request that does not run out of fuel is carried out in the same way with
more. -/
theorem perform_outlasts {n n' : Nat} (hn : n ≤ n') (request : Request) :
    Outlasts .fuel (perform n request : M Empty PUnit Unit) (perform n' request) := by
  induction n generalizing n' request with
  | zero => exact .zero (c := .fuel) hn (y := fun n' => perform n' request) rfl
  | succ n ih =>
    obtain ⟨n', rfl, hle⟩ := Limit.Fuels.of_succ (c := .fuel) hn
    exact step_outlasts (fun request => ih hle request) hle request

/-- The same holds of a call from outside. -/
theorem callFromOutside_outlasts {n n' : Nat} (hn : n ≤ n') (target : Val) (args : List Val) :
    Outlasts .fuel (callFromOutside (perform n) target args : M Empty PUnit (List Val))
      (callFromOutside (perform n') target args) := by
  have hcall : Outlasts .fuel (callWith (perform n) .root target args : M Empty PUnit Unit)
      (callWith (perform n') .root target args) := .after _ fun w => perform_outlasts hn _
  exact hcall.attempt (fun _ => .refl _) (.of_throw rfl rfl)

/-! ## Runs without a stack overflow -/

/-- A stack overflow ends a run that is given up there. -/
def Unwind.halted : Unwind → Unwind
  | .fault (.stackOverflow _) => .overflow
  | e => e

/-- A step that is given up at a stack overflow. -/
def halting {σ α : Type} (x : EStateM Unwind σ α) : EStateM Unwind σ α := fun s =>
  match x s with
  | .ok a t => .ok a t
  | .error e t => .error e.halted t

/-- Carries out requests like `perform`, but gives up at the first stack overflow: it is no fault
that could be caught. -/
def roomy {F S : Type} [HostBody F S] : Nat → Perform F S
  | 0, _ => throw .exhausted
  | fuel + 1, request => halting (step (runner fuel (roomy fuel)) fuel request)

theorem Unwind.halted_cases (e : Unwind) :
    (∃ depth, e = .fault (.stackOverflow depth) ∧ e.halted = .overflow) ∨ e.halted = e := by
  unfold Unwind.halted
  split
  · exact .inl ⟨_, rfl, rfl⟩
  · exact .inr rfl

section Halting

variable {σ α β : Type} {x : EStateM Unwind σ α} {s t : σ} {a : α} {e : Unwind}

theorem halting_of_ok (h : x s = .ok a t) : halting x s = .ok a t := by rw [halting, h]

theorem halting_of_error (h : x s = .error e t) : halting x s = .error e.halted t := by
  rw [halting, h]

theorem halting_congr {y : EStateM Unwind σ α} (h : x s = y t) : halting x s = halting y t := by
  rw [halting, h, ← halting]

theorem halting_bind (x : EStateM Unwind σ α) (f : α → EStateM Unwind σ β) :
    halting (x >>= f) = (halting x >>= fun a => halting (f a)) := by
  funext s
  cases hx : x s with
  | ok a t =>
    rw [bind_of_ok (halting_of_ok hx), halting, bind_of_ok hx]
    rfl
  | error e t => rw [bind_of_error (halting_of_error hx), halting_of_error (bind_of_error hx)]

theorem halting_halting (x : EStateM Unwind σ α) : halting (halting x) = halting x := by
  funext s
  cases hx : x s with
  | ok a t => rw [halting_of_ok hx, halting_of_ok (halting_of_ok hx)]
  | error e t =>
    rw [halting_of_error hx, halting_of_error (halting_of_error hx)]
    obtain ⟨_, -, h⟩ | h := e.halted_cases
    · rw [h]
      rfl
    · rw [h, h]

theorem halting_outlasts (x : EStateM Unwind σ α) : Outlasts .depth (halting x) x := by
  intro s
  cases hx : x s with
  | ok a t => exact .inr (halting_of_ok hx)
  | error e t =>
    rw [halting_of_error hx]
    obtain ⟨_, -, h⟩ | h := e.halted_cases
    · exact .inl ⟨t, by rw [h]; rfl⟩
    · exact .inr (by rw [h])

theorem Outlasts.halting {c : Limit} {x y : EStateM Unwind σ α} (h : Outlasts c x y) :
    Outlasts c (halting x) (halting y) := by
  intro s
  obtain ⟨t, ht⟩ | heq := h s
  · exact .inl ⟨t, by rw [halting_of_error ht]; cases c <;> rfl⟩
  · exact .inr (halting_congr heq)

end Halting

theorem halting_roomy {F S : Type} [HostBody F S] (n : Nat) (request : Request) :
    halting (roomy n request : M F S Unit) = roomy n request := by
  cases n with
  | zero => rfl
  | succ n => exact halting_halting _

theorem roomy_lasts {n n' : Nat} (hn : n ≤ n') (request : Request) :
    Outlasts .fuel (roomy n request : M Empty PUnit Unit) (roomy n' request) := by
  induction n generalizing n' request with
  | zero => exact .zero (c := .fuel) hn (y := fun n' => roomy n' request) rfl
  | succ n ih =>
    obtain ⟨n', rfl, hle⟩ := Limit.Fuels.of_succ (c := .fuel) hn
    exact (step_outlasts (fun request => ih hle request) hle request).halting

/-- **Runs without a stack overflow.** A request that is not given up for a stack overflow is carried
out in the same way where these are faults. -/
theorem roomy_outlasts (n : Nat) (request : Request) :
    Outlasts .depth (roomy n request : M Empty PUnit Unit) (perform n request) := by
  induction n generalizing request with
  | zero => exact .refl _
  | succ n ih => exact (halting_outlasts _).trans (step_outlasts ih rfl request)

end ScriptCore
