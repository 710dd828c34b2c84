import ScriptCore.Proofs.GroundedNatives
import ScriptCore.Proofs.Keeping
import ScriptCore.Session

/-!
# Bodies and captured variables

A new closure takes over what its sources are bound to (`captureCells_eq`), and a body that is loaded
gets new variables (`freshCells_eq`). What a body does besides keeps track of the captured variables,
if the requests that it makes do (`Grounding`). A body that is suspended leaves a frame with cells of
the heap, since its slots have no others.
-/

namespace ScriptCore

open Machine

/-! ## Requests -/

/-- A request that hands over no cells but the first `n`. -/
def Request.Within (n : Nat) : Request → Prop
  | .call .. => True
  | .replay links _ _ => ∀ link ∈ links, link.Within n

/-- Requests are carried out by operations on the captured variables. -/
def Grounding (P : Perform Empty PUnit) : Prop :=
  ∀ request m, m.Grounded → request.Within m.heap.cells.size → Tracked id m (P request m)

section Requests

variable {P : Perform Empty PUnit} (hP : Grounding P) {window scratch : View}

include hP

theorem call_tracks (window : View) (target : Val) : Tracking (P (.call window target)) :=
  fun m hm => hP (.call window target) m hm trivial

theorem callWith_tracks (window : View) (target : Val) (args : List Val) :
    Tracking (callWith P window target args) :=
  (load_tracks window args).bind fun w => call_tracks hP w target

theorem callMeta_tracks (window : View) (handler : Val) (args : List Val) :
    Tracking (callMeta P window handler args) :=
  (callWith_tracks hP window handler args).bind fun _ => result_tracks 0

theorem callNonresumable_tracks (window : View) (target : Val) (name : String) :
    Tracking (callNonresumable P window target name) := by
  refine Tracks.bind (onThread_tracks fun _ => rfl) fun _ m hm => ?_
  refine attempt_tracked (ensuring_tracked (call_tracks hP window target m hm) (fun _ => rfl)
    fun _ => rfl) (fun _ t ht => Tracks.pure _ t ht.grounded) fun e t ht hchain => ?_
  cases e with
  | suspend s => exact fail_tracks _ t ht.grounded
  | fault | overflow | exhausted => exact throw_tracked ht.grounded hchain

omit hP in
theorem probe_tracks (event : Event) (current key : Val) :
    Tracking (probe event current key : M Empty PUnit Found) := by
  unfold probe
  split
  · refine (tableAt_tracks _).bind fun _ => .ite ((metamethod_tracks _ event).bind fun h? => ?_)
      (.pure _)
    cases h? <;> exact .pure _
  · refine (metamethod_tracks _ event).bind fun h? => ?_
    cases h? with
    | none => exact fail_tracks _
    | some h => exact .pure _

theorem indexWithin_tracks (scratch : View) (current key : Val) (limit : Nat) :
    Tracking (indexWithin P scratch current key limit) := by
  induction limit generalizing current with
  | zero =>
    unfold indexWithin
    refine (probe_tracks .index current key).bind fun found => ?_
    cases found with
    | entry => exact .pure _
    | handler => exact fail_tracks _
  | succ limit ih =>
    unfold indexWithin
    refine (probe_tracks .index current key).bind fun found => ?_
    cases found with
    | entry => exact .pure _
    | handler h =>
      exact (record_tracks _).bind fun _ => .ite (callMeta_tracks hP scratch h _) (ih h)

theorem newIndexWithin_tracks (scratch : View) (current key value : Val) (limit : Nat) :
    Tracking (newIndexWithin P scratch current key value limit) := by
  induction limit generalizing current with
  | zero =>
    unfold newIndexWithin
    refine (probe_tracks .newIndex current key).bind fun found => ?_
    cases found with
    | entry t => exact setTable_tracks t key value
    | handler => exact fail_tracks _
  | succ limit ih =>
    unfold newIndexWithin
    refine (probe_tracks .newIndex current key).bind fun found => ?_
    cases found with
    | entry t => exact setTable_tracks t key value
    | handler h =>
      exact (record_tracks _).bind fun _ => .ite (callWith_tracks hP scratch h _) (ih h)

theorem index_tracks (scratch : View) (object key : Val) :
    Tracking (index P scratch object key) :=
  config_tracks.bind fun _ => indexWithin_tracks hP scratch object key _

theorem newIndex_tracks (scratch : View) (object key value : Val) :
    Tracking (newIndex P scratch object key value) :=
  config_tracks.bind fun _ => newIndexWithin_tracks hP scratch object key value _

omit hP in
theorem handlerOf_tracks (event : Event) (lhs rhs : Val) :
    Tracking (handlerOf event lhs rhs : M Empty PUnit (Option Val)) :=
  (metamethod_tracks lhs event).bind fun h? => by
    cases h? with
    | none => exact metamethod_tracks rhs event
    | some h => exact .pure _

theorem arith_tracks (scratch : View) (op : BinOp) (lhs rhs : Val) :
    Tracking (arith P scratch op lhs rhs) :=
  (orFail_tracks _).bind fun v? => by
    cases v? with
    | some v => exact .pure v
    | none =>
      refine (handlerOf_tracks op.event lhs rhs).bind fun h? => ?_
      cases h? with
      | none => exact orFail_tracks _
      | some h =>
        exact (record_tracks _).bind fun _ => (callMeta_tracks hP scratch h _).bind fun _ => .pure _

/-- A unary operator asks a handler, or does what it does without one. -/
theorem handled_unary_tracks (scratch : View) (op : UnOp) (v : Val) (h? : Option Val) :
    Tracking (match h? with
      | none => do
        let m ← get
        orFail (op.missing (fun t => (m.heap.table t).len) v)
      | some h => do
        record fun _ => .unaryHandler op v.kind
        callMeta P scratch h [v, v] : M Empty PUnit Val) := by
  cases h? with
  | none => exact Tracks.get.bind fun _ => orFail_tracks _
  | some h => exact (record_tracks _).bind fun _ => callMeta_tracks hP scratch h _

theorem unary_tracks (scratch : View) (op : UnOp) (v : Val) : Tracking (unary P scratch op v) := by
  refine (orFail_tracks _).bind fun v? => ?_
  cases v? with
  | some v => exact .pure v
  | none =>
    dsimp only
    split
    · exact (metamethod_tracks v _).bind (handled_unary_tracks hP scratch op v)
    · exact (Tracks.pure none).bind (handled_unary_tracks hP scratch op v)

end Requests

/-! ## Steps on frames -/

/-- The steps of a body. -/
abbrev BodyTracking {α : Type} (x : Body Empty PUnit α) : Prop := Tracks Active.machine x

namespace Body

variable {α : Type}

theorem lift_tracked {x : M Empty PUnit α} {s : Active Empty PUnit}
    (h : Tracked id s.machine (x s.machine)) : Tracked Active.machine s (lift x s) := by
  unfold lift
  dsimp only
  cases hx : x s.machine with
  | ok a m => rw [hx] at h; exact h
  | error e m => rw [hx] at h; exact h

theorem lift_tracks {x : M Empty PUnit α} (h : Tracking x) : BodyTracking (lift x) :=
  fun s hs => lift_tracked (h s.machine hs)

theorem frame_tracks : BodyTracking (frame : Body Empty PUnit Frame) :=
  Tracks.get.bind fun _ => .pure _

theorem setIndex_tracks (i : Nat) : BodyTracking (setIndex i : Body Empty PUnit Unit) :=
  .modify fun _ hs => .refl hs

theorem getSlot_tracks (i : Nat) : BodyTracking (getSlot i : Body Empty PUnit Val) :=
  frame_tracks.bind fun f => lift_tracks (valueAt_tracks f.view i)

theorem setSlot_tracks (i : Nat) (v : Val) : BodyTracking (setSlot i v : Body Empty PUnit Unit) :=
  frame_tracks.bind fun f => lift_tracks (putValue_tracks f.view i v)

theorem setSlots_tracks (i : Nat) (vs : List Val) :
    BodyTracking (setSlots i vs : Body Empty PUnit Unit) := by
  induction vs generalizing i with
  | nil => exact .pure ()
  | cons v vs ih => exact (setSlot_tracks i v).bind fun _ => ih (i + 1)

theorem setTop_tracks (n : Nat) : BodyTracking (setTop n : Body Empty PUnit Unit) :=
  frame_tracks.bind fun f => (lift_tracks (Machine.setTop_tracks f.view n)).bind fun _ =>
    .modify fun _ hs => .refl hs

theorem slotValues_tracks (first last : Nat) :
    BodyTracking (slotValues first last : Body Empty PUnit (List Val)) :=
  frame_tracks.bind fun f => lift_tracks (valuesOf_tracks f.view first last)

theorem scratch_tracks : BodyTracking (scratch : Body Empty PUnit View) :=
  frame_tracks.bind fun _ => lift_tracks (Machine.setTop_tracks _ 0)

variable {P : Perform Empty PUnit} (hP : Grounding P)

include hP

theorem call_tracks (resumeAt : Nat) (target : Val) (base nargs : Nat) :
    BodyTracking (call P resumeAt target base nargs) :=
  (setIndex_tracks resumeAt).bind fun _ => frame_tracks.bind fun _ =>
    (lift_tracks (Machine.setTop_tracks _ nargs)).bind fun w =>
      lift_tracks (ScriptCore.call_tracks hP w target)

theorem callWith_tracks (resumeAt : Nat) (target : Val) (args : List Val) :
    BodyTracking (callWith P resumeAt target args) :=
  (setIndex_tracks resumeAt).bind fun _ => scratch_tracks.bind fun w =>
    (lift_tracks (load_tracks w args)).bind fun w => lift_tracks (ScriptCore.call_tracks hP w target)

end Body

/-! ## New closures -/

section Closures

variable {m : Machine Empty PUnit} {f : FnId} {p q : Proto} {view : View}

/-- Where a new closure finds a variable. -/
def Machine.source (m : Machine Empty PUnit) (f : FnId) (view : View) (d : UpvalueDesc) :
    Variables.Source :=
  match d.capture with
  | .slot r => .slot (view.slot m.thread.stack r.toNat).cell?
  | .upvalue idx => .variable f idx.toNat

/-- Where a new closure finds its variables. -/
def Machine.sources (m : Machine Empty PUnit) (f : FnId) (view : View) (ds : List UpvalueDesc) :
    List (String × Variables.Source) := ds.map fun d => (d.name, m.source f view d)

theorem source_within (hm : m.Grounded) {d : UpvalueDesc} {c : CellId}
    (h : m.heap.variables.source (m.source f view d) = some c) :
    c.index < m.heap.cells.size := by
  unfold Machine.source at h
  cases hd : d.capture with
  | slot r =>
    rw [hd] at h
    dsimp only [Variables.source] at h
    have hslot := hm.stack (view.base + r.toNat)
    cases hcell : view.slot m.thread.stack r.toNat with
    | cell c' =>
      rw [hcell] at h
      cases h
      rw [View.slot] at hcell
      rw [hcell] at hslot
      exact hslot
    | value v => rw [hcell] at h; cases h
  | upvalue idx =>
    rw [hd] at h
    dsimp only [Variables.source] at h
    obtain ⟨x, hx, rfl⟩ := Option.map_eq_some_iff.1 h
    exact hm.sound.find_cell hx

/-- A captured variable of the running function. -/
theorem capturedCell_eq (hm : m.Grounded) (f : FnId) (p : Proto) (idx : Nat) :
    match m.heap.variables.find f idx with
    | some x => Interpreter.capturedCell f p idx m = .ok x.2 m
    | none => ∃ e, Interpreter.capturedCell f p idx m = .error (.fault e) m := by
  have hfind : m.heap.variables.find f idx = (m.heap.function f).upvalue? idx := by
    rw [Variables.find, if_neg (by omega)]
    rfl
  rw [hfind]
  unfold Interpreter.capturedCell
  rw [bind_of_ok (show functionAt f m = .ok (m.heap.function f) m from rfl)]
  have hc := hm.functions f
  generalize m.heap.function f = c at hc
  cases c with
  | closure p' cells =>
    dsimp only [Callable.upvalue?]
    by_cases hi : idx < cells.size
    · have hu : idx < p'.upvalues.length := hc.1 ▸ hi
      simp only [List.getElem?_eq_getElem hu, Array.getElem?_eq_getElem hi]
      rfl
    · simp only [Array.getElem?_eq_none (Nat.le_of_not_lt hi)]
      cases p'.upvalues[idx]? <;> exact ⟨_, rfl⟩
  | host h => exact h.elim
  | builtin | protectedCall | wrapped | routine => exact ⟨_, rfl⟩

/-- One capture. -/
theorem captureCells_cons (hm : m.Grounded) (view : View) (d : UpvalueDesc) (ds : List UpvalueDesc)
    (cells : Array CellId) :
    match m.heap.variables.source (m.source f view d) with
    | some c => Interpreter.captureCells f p q view (d :: ds) cells m =
        Interpreter.captureCells f p q view ds (cells.push c) m
    | none => ∃ e, Interpreter.captureCells f p q view (d :: ds) cells m =
        .error (.fault e) m := by
  unfold Machine.source
  rw [Interpreter.captureCells]
  cases hd : d.capture with
  | slot r =>
    have hslot : slotAt view r.toNat m = .ok (view.slot m.thread.stack r.toNat) m := rfl
    dsimp only [Variables.source]
    cases hcell : view.slot m.thread.stack r.toNat with
    | cell c =>
      rw [hcell] at hslot
      exact bind_of_ok hslot
    | value v =>
      rw [hcell] at hslot
      exact ⟨_, bind_of_ok hslot⟩
  | upvalue idx =>
    have hcell := capturedCell_eq hm f p idx.toNat
    dsimp only [Variables.source]
    cases hx : m.heap.variables.find f idx.toNat with
    | some x =>
      rw [hx] at hcell
      exact bind_of_ok hcell
    | none =>
      rw [hx] at hcell
      obtain ⟨e, he⟩ := hcell
      exact ⟨e, bind_of_error he⟩

/-- **Captures.** A new closure takes over the cells of its sources, as they are at that moment, or
is refused where one has none. -/
theorem captureCells_eq (hm : m.Grounded) (view : View) (ds : List UpvalueDesc) (cells : Array CellId) :
    match m.heap.variables.resolve (m.sources f view ds) with
    | some xs => Interpreter.captureCells f p q view ds cells m =
        .ok (cells ++ (xs.map (·.2)).toArray) m
    | none => ∃ e, Interpreter.captureCells f p q view ds cells m = .error (.fault e) m := by
  induction ds generalizing cells with
  | nil =>
    show Interpreter.captureCells f p q view [] cells m = .ok (cells ++ #[]) m
    rw [Array.append_empty]
    rfl
  | cons d ds ih =>
    have hcons := captureCells_cons (f := f) (p := p) (q := q) hm view d ds cells
    rw [sources, List.map_cons, Variables.resolve, ← sources]
    cases hc : m.heap.variables.source (m.source f view d) with
    | none => rw [hc] at hcons; exact hcons
    | some c =>
      rw [hc] at hcons
      have hrest := ih (cells.push c)
      cases hxs : m.heap.variables.resolve (m.sources f view ds) with
      | none =>
        rw [hxs] at hrest
        obtain ⟨e, he⟩ := hrest
        exact ⟨e, hcons.trans he⟩
      | some xs =>
        rw [hxs] at hrest
        refine (hcons.trans hrest).trans ?_
        simp

/-- What is found is named as the sources are, and has cells of the heap. -/
theorem resolve_sources (hm : m.Grounded) {ds : List UpvalueDesc} {xs : List (String × CellId)}
    (h : m.heap.variables.resolve (m.sources f view ds) = some xs) :
    xs.map (·.1) = ds.map (·.name) ∧ ∀ x ∈ xs, x.2.index < m.heap.cells.size := by
  induction ds generalizing xs with
  | nil =>
    cases h
    exact ⟨rfl, nofun⟩
  | cons d ds ih =>
    rw [sources, List.map_cons, Variables.resolve, ← sources] at h
    cases hc : m.heap.variables.source (m.source f view d) with
    | none => rw [hc] at h; cases h
    | some c =>
      rw [hc] at h
      cases hys : m.heap.variables.resolve (m.sources f view ds) with
      | none => rw [hys] at h; cases h
      | some ys =>
        rw [hys] at h
        cases h
        obtain ⟨hnames, hcells⟩ := ih hys
        refine ⟨by simp [hnames], fun x hx => ?_⟩
        obtain rfl | hx := List.mem_cons.1 hx
        · exact source_within hm hc
        · exact hcells x hx

/-- A function over given variables. -/
theorem variables_closure {ds : List UpvalueDesc} {xs : List (String × CellId)}
    (hq : q.upvalues = ds) (h : xs.map (·.1) = ds.map (·.name)) :
    (Callable.closure q (xs.map (·.2)).toArray : Callable Empty).variables = xs := by
  simp only [Callable.variables, hq, ← h]
  clear h
  induction xs with
  | nil => rfl
  | cons x xs ih => simpa using ih

/-- A function whose variables have cells of the heap. -/
theorem within_closure {xs : List (String × CellId)} {n : Nat}
    (h : xs.map (·.1) = q.upvalues.map (·.name)) (hcells : ∀ x ∈ xs, x.2.index < n) :
    (Callable.closure q (xs.map (·.2)).toArray : Callable Empty).Within n := by
  refine ⟨by simpa using congrArg List.length h, fun c hc => ?_⟩
  obtain ⟨x, hx, rfl⟩ := List.mem_map.1 (List.mem_toArray.1 hc)
  exact hcells x hx

/-- **New closures.** A nested body becomes a function over the variables that its sources are bound
to, or nothing happens at all. -/
theorem makeClosure_eq (hm : m.Grounded) (f : FnId) {idx : Nat} (hq : p.children[idx]? = some q)
    (frame : Frame) :
    match m.heap.variables.resolve (m.sources f frame.view q.upvalues) with
    | some xs => ∃ t, Interpreter.makeClosure f p idx ⟨frame, m⟩ =
        .ok (.fn ⟨m.heap.functions.size⟩) ⟨frame, t⟩ ∧ m.Moves t ∧
          t.heap.variables = m.heap.variables.extended xs
    | none => ∃ e, Interpreter.makeClosure f p idx ⟨frame, m⟩ = .error (.fault e) ⟨frame, m⟩ := by
  have hcapture := captureCells_eq (f := f) (p := p) (q := q) hm frame.view q.upvalues #[]
  have hrun : Interpreter.makeClosure f p idx ⟨frame, m⟩ = (Body.lift do
      let cells ← Interpreter.captureCells f p q frame.view q.upvalues #[]
      return .fn (← newClosure q cells) : Body Empty PUnit Val) ⟨frame, m⟩ := by
    unfold Interpreter.makeClosure
    rw [hq]
    rfl
  rw [hrun]
  cases hxs : m.heap.variables.resolve (m.sources f frame.view q.upvalues) with
  | none =>
    rw [hxs] at hcapture
    obtain ⟨e, he⟩ := hcapture
    exact ⟨e, Body.lift_of_error (bind_of_error he)⟩
  | some xs =>
    rw [hxs] at hcapture
    obtain ⟨hnames, hcells⟩ := resolve_sources hm hxs
    have hnew : (newClosure q (#[] ++ (xs.map (·.2)).toArray) : M Empty PUnit FnId) m =
        .ok ⟨m.heap.functions.size⟩ (m.pushed (.closure q (xs.map (·.2)).toArray)) := by
      have hsize : q.upvalues.length = (xs.map (·.2)).toArray.size := by
        simpa using (congrArg List.length hnames).symm
      unfold newClosure
      rw [Array.empty_append, hsize, Array.extract_size, Nat.sub_self]
      rfl
    refine ⟨_, Body.lift_of_ok ((bind_of_ok hcapture).trans (bind_of_ok hnew)),
      moves_pushed hm (within_closure hnames hcells), ?_⟩
    rw [variables_pushed, variables_closure rfl hnames]

theorem makeClosure_tracks (f : FnId) (p : Proto) (idx : Nat) :
    BodyTracking (Interpreter.makeClosure f p idx : Body Empty PUnit Val) := fun s hs => by
  obtain ⟨frame, m⟩ := s
  cases hq : p.children[idx]? with
  | none =>
    unfold Interpreter.makeClosure
    rw [hq]
    exact Body.lift_tracks (violate_tracks _) ⟨frame, m⟩ hs
  | some q =>
    have hmake := makeClosure_eq (m := m) hs f hq frame
    cases hxs : m.heap.variables.resolve (m.sources f frame.view q.upvalues) with
    | none =>
      rw [hxs] at hmake
      obtain ⟨e, he⟩ := hmake
      rw [he]
      exact ⟨.refl hs, nofun⟩
    | some xs =>
      rw [hxs] at hmake
      obtain ⟨t, ht, hmoves, -⟩ := hmake
      rw [ht]
      exact hmoves

/-- The names of new variables. -/
theorem fresh_names (V : Variables) (names : List String) :
    (V.fresh names).1.map (·.1) = names := by
  induction names generalizing V with
  | nil => rfl
  | cons name names ih => exact congrArg (name :: ·) (ih _)

/-- **New variables.** Cells that are missing are made. -/
theorem freshCells_eq (hm : m.Grounded) (names : List String) (cells : Array CellId) :
    ∃ t, freshCells cells names.length m =
        .ok (cells ++ ((m.heap.variables.fresh names).1.map (·.2)).toArray) t ∧ m.Moves t ∧
      t.heap.variables = (m.heap.variables.fresh names).2 ∧
      ∀ x ∈ (m.heap.variables.fresh names).1, x.2.index < t.heap.cells.size := by
  induction names generalizing m cells with
  | nil =>
    refine ⟨m, ?_, .refl hm, rfl, nofun⟩
    show (pure cells : M Empty PUnit (Array CellId)) m = .ok (cells ++ #[]) m
    rw [Array.append_empty]
    rfl
  | cons name names ih =>
    obtain ⟨hmoves, hvariables⟩ := moves_newCell hm .nil
    obtain ⟨t, ht, hrest, hfresh, hcells⟩ := ih hmoves.grounded (cells.push ⟨m.heap.cells.size⟩)
    rw [hvariables] at ht hfresh hcells
    refine ⟨t, ?_, hmoves.trans hrest, hfresh, fun x hx => ?_⟩
    · refine (bind_of_ok (show newCell .nil m = .ok ⟨m.heap.cells.size⟩ _ from rfl)).trans
        (ht.trans ?_)
      simp [Variables.fresh, Heap.variables]
    · obtain rfl | hx := List.mem_cons.1 hx
      · exact Nat.lt_of_lt_of_le (by simp [Heap.variables]) hrest.cells
      · exact hcells x hx

theorem fresh_functions (V : Variables) (names : List String) :
    (V.fresh names).2.functions = V.functions := by
  induction names generalizing V with
  | nil => rfl
  | cons name names ih => exact ih (V.introduced .nil)

/-- A closure without cells gets new ones. -/
theorem newClosure_fresh (hm : m.Grounded) (p : Proto) :
    ∃ t, newClosure p #[] m = .ok ⟨m.heap.functions.size⟩ t ∧ m.Moves t ∧
      m.heap.variables.step (.load (p.upvalues.map (·.name))) =
        (.function ⟨m.heap.functions.size⟩, t.heap.variables) := by
  generalize hn : p.upvalues.map (·.name) = names
  obtain ⟨t, ht, hmoves, hvariables, hcells⟩ := freshCells_eq hm names #[]
  have hmade : t.heap.functions.size = m.heap.functions.size :=
    (congrArg Variables.functions hvariables).trans (fresh_functions _ names)
  have hnames := (fresh_names m.heap.variables names).trans hn.symm
  have hlength : p.upvalues.length = names.length := by rw [← hn, List.length_map]
  refine ⟨t.pushed (.closure p ((m.heap.variables.fresh names).1.map (·.2)).toArray), ?_,
    hmoves.trans (moves_pushed hmoves.grounded (within_closure hnames hcells)), ?_⟩
  · unfold newClosure
    rw [Array.extract_empty, Array.size_empty, Nat.sub_zero, hlength, bind_of_ok ht,
      Array.empty_append, ← hmade]
    rfl
  · rw [variables_pushed, variables_closure rfl hnames, hvariables, ← hmade]
    show (Variables.Answer.function ⟨(m.heap.variables.fresh names).2.functions⟩, _) = _
    rw [← hvariables]
    rfl

/-- **Loaded bodies.** A body that passes its check becomes a function over new variables. -/
theorem loadProto_eq (hm : m.Grounded) {p : Proto} (hp : p.check = .ok ()) :
    ∃ t, loadProto p m = .ok (.fn ⟨m.heap.functions.size⟩) t ∧ m.Moves t ∧
      m.heap.variables.step (.load (p.upvalues.map (·.name))) =
        (.function ⟨m.heap.functions.size⟩, t.heap.variables) := by
  obtain ⟨x, hx⟩ := record_ok m fun _ => .load p.name p.slots
  have hsame : m.Moves { m with trace := x } := .same hm rfl rfl rfl rfl
  obtain ⟨t, ht, hmoves, hvariables⟩ := newClosure_fresh hsame.grounded p
  refine ⟨t, ?_, hsame.trans hmoves, hvariables⟩
  refine (bind_of_ok (show orReject p.check m = .ok () m by rw [hp]; rfl)).trans ?_
  exact (bind_of_ok hx).trans (bind_of_ok ht)

theorem loadProto_refused {p : Proto} (hp : p.check ≠ .ok ()) :
    ∃ e, (loadProto p : M Empty PUnit Val) m = .error e m := by
  unfold loadProto
  cases hcheck : p.check with
  | ok u => exact (hp hcheck).elim
  | error e =>
    cases e with
    | violation v => exact ⟨_, bind_of_error rfl⟩
    | overflow => exact ⟨_, bind_of_error rfl⟩

end Closures

/-! ## Operations -/

namespace Interpreter

theorem span_tracks (base : Nat) (count : Count) :
    BodyTracking (span base count : Body Empty PUnit (Nat × Nat)) := by
  cases count with
  | fixed n => exact .pure _
  | «open» => exact Body.frame_tracks.bind fun _ => .pure _

theorem spanValues_tracks (base : Nat) (count : Count) :
    BodyTracking (spanValues base count : Body Empty PUnit (List Val)) :=
  (span_tracks base count).bind fun x => Body.slotValues_tracks x.1 x.2

theorem capturedCell_tracks (f : FnId) (p : Proto) (idx : Nat) :
    Tracking (capturedCell f p idx : M Empty PUnit CellId) := fun m hm => by
  have hcell := capturedCell_eq (m := m) hm f p idx
  cases hx : m.heap.variables.find f idx with
  | some x =>
    rw [hx] at hcell
    rw [show capturedCell f p idx m = _ from hcell]
    exact Moves.refl hm
  | none =>
    rw [hx] at hcell
    obtain ⟨e, he⟩ := hcell
    rw [he]
    exact fail_tracks e m hm

theorem appendSpan_tracks (p : Proto) (pc : Nat) (base : Reg) (count : Count) (first : UInt32)
    (v : Val) : BodyTracking (appendSpan p pc base count first v : Body Empty PUnit Unit) := by
  cases v with
  | table t =>
    exact (spanValues_tracks _ count).bind fun _ => Body.lift_tracks (setList_tracks t _ _)
  | nil | bool | int | float | str | fn | co => exact Body.lift_tracks (violate_tracks _)

theorem complete_tracks (p : Proto) (pc : Nat) :
    BodyTracking (complete p pc : Body Empty PUnit Unit) := by
  have hstore : ∀ (dst : Reg) (g : Val → Val), BodyTracking (do
      Body.setSlot dst.toNat (g (← Body.lift (result 0))) : Body Empty PUnit Unit) :=
    fun dst g => (Body.lift_tracks (result_tracks 0)).bind fun v => Body.setSlot_tracks _ (g v)
  unfold complete
  cases p.code[pc]? with
  | none => exact Body.lift_tracks (violate_tracks _)
  | some op =>
    cases op with
    | call func args results =>
      cases results with
      | fixed n =>
        exact .ite ((Body.lift_tracks resultList_tracks).bind fun _ => Body.setSlots_tracks _ _)
          (.pure ())
      | «open» =>
        exact (Body.lift_tracks resultList_tracks).bind fun _ =>
          (Body.setSlots_tracks _ _).bind fun _ => Body.setTop_tracks _
    | binary op dst => exact hstore dst op.finish
    | unary op dst =>
      cases op with
      | not => exact Body.lift_tracks (violate_tracks _)
      | neg | bnot | len => exact hstore dst id
    | index dst => exact hstore dst id
    | getGlobal dst => exact hstore dst id
    | newIndex | setGlobal => exact .pure ()
    | nil | bool | const | move | varInit | varStore | getUpval | setUpval | closure | newTable
    | append | jump | test | tailCall | ret | vararg => exact Body.lift_tracks (violate_tracks _)

section Operations

variable {P : Perform Empty PUnit} (hP : Grounding P)

include hP

/-- One operation of a body. -/
theorem execute_tracks (f : FnId) (p : Proto) (pc : Nat) (op : Op) :
    BodyTracking (execute P f p pc op) := by
  have hgo : ∀ {x : Body Empty PUnit Unit}, BodyTracking x →
      BodyTracking (do x; return .goto (pc + 1) : Body Empty PUnit Next) :=
    fun hx => hx.bind fun _ => .pure _
  unfold execute
  cases op with
  | nil dst => exact hgo (Body.setSlot_tracks _ _)
  | bool dst value => exact hgo (Body.setSlot_tracks _ _)
  | const dst idx => exact hgo (Body.setSlot_tracks _ _)
  | move dst src => exact (Body.getSlot_tracks _).bind fun _ => hgo (Body.setSlot_tracks _ _)
  | varInit var src =>
    refine (Body.getSlot_tracks _).bind fun value => Body.frame_tracks.bind fun frame => hgo ?_
    exact Body.lift_tracks fun m hm => newCell_tracked hm value fun c t ht hc =>
      putSlot_tracked ht frame.view var.toNat hc
  | varStore var src =>
    exact (Body.getSlot_tracks _).bind fun _ => Body.frame_tracks.bind fun _ =>
      hgo (Body.lift_tracks (store_tracks _ _ _))
  | getUpval dst idx =>
    exact (Body.lift_tracks ((capturedCell_tracks f p _).bind fun c => cellAt_tracks c)).bind
      fun _ => hgo (Body.setSlot_tracks _ _)
  | setUpval idx src =>
    exact (Body.lift_tracks (capturedCell_tracks f p _)).bind fun c =>
      (Body.getSlot_tracks _).bind fun v => hgo (Body.lift_tracks (putCell_tracks c v))
  | closure dst child => exact (makeClosure_tracks f p _).bind fun _ => hgo (Body.setSlot_tracks _ _)
  | newTable dst =>
    exact (Body.lift_tracks newTable_tracks).bind fun _ => hgo (Body.setSlot_tracks _ _)
  | append table base count first =>
    exact (Body.getSlot_tracks _).bind fun v => hgo (appendSpan_tracks p pc base count first v)
  | getGlobal dst name =>
    exact (Body.setIndex_tracks _).bind fun _ => Body.scratch_tracks.bind fun scratch =>
      (Body.lift_tracks (globals_tracks.bind fun t => index_tracks hP scratch _ _)).bind fun _ =>
        hgo (Body.setSlot_tracks _ _)
  | setGlobal name src =>
    exact (Body.getSlot_tracks _).bind fun v => (Body.setIndex_tracks _).bind fun _ =>
      Body.scratch_tracks.bind fun scratch =>
        hgo (Body.lift_tracks (globals_tracks.bind fun t => newIndex_tracks hP scratch _ _ v))
  | index dst object key =>
    exact (Body.getSlot_tracks _).bind fun _ => (Body.getSlot_tracks _).bind fun _ =>
      (Body.setIndex_tracks _).bind fun _ => Body.scratch_tracks.bind fun scratch =>
        (Body.lift_tracks (index_tracks hP scratch _ _)).bind fun _ => hgo (Body.setSlot_tracks _ _)
  | newIndex object key value =>
    exact (Body.getSlot_tracks _).bind fun _ => (Body.getSlot_tracks _).bind fun _ =>
      (Body.getSlot_tracks _).bind fun _ => (Body.setIndex_tracks _).bind fun _ =>
        Body.scratch_tracks.bind fun scratch =>
          hgo (Body.lift_tracks (newIndex_tracks hP scratch _ _ _))
  | binary op dst lhs rhs =>
    exact (Body.getSlot_tracks _).bind fun _ => (Body.getSlot_tracks _).bind fun _ =>
      (Body.setIndex_tracks _).bind fun _ => Body.scratch_tracks.bind fun scratch =>
        (Body.lift_tracks (arith_tracks hP scratch op _ _)).bind fun _ =>
          hgo (Body.setSlot_tracks _ _)
  | unary op dst src =>
    cases op with
    | not => exact (Body.getSlot_tracks _).bind fun _ => hgo (Body.setSlot_tracks _ _)
    | neg | bnot | len =>
      exact (Body.getSlot_tracks _).bind fun _ => (Body.setIndex_tracks _).bind fun _ =>
        Body.scratch_tracks.bind fun scratch =>
          (Body.lift_tracks (unary_tracks hP scratch _ _)).bind fun _ =>
            hgo (Body.setSlot_tracks _ _)
  | jump dest => exact .pure _
  | test cond value dest => exact (Body.getSlot_tracks _).bind fun _ => .ite (.pure _) (.pure _)
  | call func args results =>
    exact (Body.getSlot_tracks _).bind fun target => (Body.lift_tracks (orOverflow_tracks _)).bind
      fun n => (span_tracks n args).bind fun x =>
        (Body.call_tracks hP _ target x.1 _).bind fun _ => hgo (complete_tracks p pc)
  | tailCall func args =>
    exact (Body.getSlot_tracks _).bind fun target => (Body.lift_tracks (orOverflow_tracks _)).bind
      fun n => (spanValues_tracks n args).bind fun _ =>
        (Body.lift_tracks (requestTailCall_tracks target _)).bind fun _ => .pure _
  | ret base count =>
    exact (spanValues_tracks _ count).bind fun _ =>
      (Body.lift_tracks (giveAll_tracks _)).bind fun _ => .pure _
  | vararg dst count =>
    refine Body.frame_tracks.bind fun frame => ?_
    cases count with
    | fixed n => exact hgo (Body.setSlots_tracks _ _)
    | «open» => exact (Body.setSlots_tracks _ _).bind fun _ => hgo (Body.setTop_tracks _)

theorem loop_tracks (f : FnId) (p : Proto) (fuel pc : Nat) : BodyTracking (loop P f p fuel pc) := by
  induction fuel generalizing pc with
  | zero => exact .throw trivial
  | succ fuel ih =>
    unfold loop
    cases p.code[pc]? with
    | none => exact Body.lift_tracks (giveAll_tracks _)
    | some op =>
      refine (execute_tracks hP f p pc op).bind fun next => ?_
      cases next with
      | goto pc => exact ih pc
      | done => exact .pure ()

omit hP in
theorem reifyParams_tracks (p : Proto) (slot n : Nat) :
    BodyTracking (reifyParams p slot n : Body Empty PUnit Unit) := by
  induction n generalizing slot with
  | zero => exact .pure ()
  | succ n ih =>
    refine .ite (Body.frame_tracks.bind fun frame =>
      (Body.lift_tracks (reify_tracks frame.view slot)).bind fun _ => ih (slot + 1)) (ih (slot + 1))

theorem run_tracks (fuel : Nat) (f : FnId) (p : Proto) : BodyTracking (run fuel P f p) :=
  Body.frame_tracks.bind fun _ =>
    .ite ((reifyParams_tracks p 0 p.params).bind fun _ => loop_tracks hP f p fuel 0)
      ((complete_tracks p _).bind fun _ => loop_tracks hP f p fuel _)

end Operations

end Interpreter

end ScriptCore
