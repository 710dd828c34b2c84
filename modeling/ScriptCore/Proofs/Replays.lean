import ScriptCore.Proofs.Isolation

/-!
# Replays in two phases

A replay nests: every link is re-entered by the one around it. `perform_replay` unfolds this
into two phases. `descend` re-enters the links from the outermost on, each with its own saved
frame, and hands the values of the resume to the operation that is pending at the bottom;
`ascend` goes on with the re-entered links from the innermost on. While links wait, their frames
stay as they were saved (`descend_spec`), so a suspension on the way up leaves for every link
that has not gone on the link that it came from (`ascend_suspends`).

All functions are those of scripts and libraries here.
-/

namespace ScriptCore

open Machine

variable {α β : Type}

/-! ## Links that were re-entered -/

/-- A function that can be re-entered. -/
inductive Reentrant
  | closure (proto : Proto)
  | routine (r : Routine)
  | protection (p : Protection)

/-- How many slots a re-entered function has. -/
def Reentrant.slots : Reentrant → Nat
  | .closure proto => proto.layout.slots
  | .routine r => r.layout.slots
  | .protection _ => 0

/-- A link that has been re-entered and waits for the links below it. -/
structure Opened where
  link : Link
  /-- What the function of the link is. -/
  code : Reentrant
  /-- The window in which it was re-entered. -/
  window : View
  /-- The fuel of its run. -/
  fuel : Nat

namespace Opened

/-- The frame that is laid out again from the link. -/
def frame (o : Opened) : Frame :=
  ⟨⟨o.window.base, o.link.saved.top⟩, o.link.index, o.code.slots, o.link.saved.varargs⟩

/-- Goes on when the links below have ended in some way. -/
def goOn (o : Opened) (ending : Except Unwind Unit) : M Empty PUnit Unit :=
  let f := o.link.function
  match o.code with
  | .closure proto =>
    continueBody f (Interpreter.run o.fuel (perform o.fuel) f proto) o.frame ending
  | .routine r => continueBody f (r.run o.fuel (perform o.fuel)) o.frame ending
  | .protection p =>
    Base.settle (perform o.fuel) f p o.window (o.link.saved.varargs.headD .nil) ending

/-- The frame is as it was saved: saved again, it makes the same link. -/
def Holds (o : Opened) (m : Machine Empty PUnit) : Prop := linkOf o.link.function o.frame m = o.link

end Opened

theorem Callable.Kept.leaves {F : Type} {c d : Callable F} {index : Nat} {saved : Saved}
    (h : c.Kept d) (hc : c.Leaves index saved) : d.Leaves index saved := by
  cases h <;> exact hc

namespace Machine

/-! ## The two phases -/

/-- Counts out again if a step fails. -/
def orLeave (x : M Empty PUnit α) : M Empty PUnit α := fun m =>
  match x m with
  | .ok a t => .ok a t
  | .error e t => .error e (leave t)

/-- Lays the frame of a link out again; tells what its function is and the window above it. -/
def layOut (link : Link) (window : View) : M Empty PUnit (Reentrant × View) := do
  let callable ← functionAt link.function
  match callable with
  | .closure proto _ =>
    if link.index = 0 then violate (.entrySegment proto.name)
    let frame ← reopenFrame proto.layout window link.index link.saved
    return (.closure proto, ← Body.scratchOf frame)
  | .routine r =>
    if link.index = 0 then violate (.entrySegment r.name)
    let frame ← reopenFrame r.layout window link.index link.saved
    return (.routine r, ← Body.scratchOf frame)
  | .protectedCall p =>
    if link.index ≠ 1 then violate (.noSegment p.name link.index)
    return (.protection p, window)
  | .host _ | .builtin _ | .wrapped _ => violate (.notReenterable callable.name link.index)

/-- Re-enters a link above `below` others, up to where it waits for them. -/
def reopen (link : Link) (below : Nat) (window : View) : M Empty PUnit (Reentrant × View) := do
  let m ← get
  record fun _ => .replay (m.heap.function link.function).name link.index below
  enter
  orLeave (layOut link window)

/-- Re-enters links from the outermost on and gives the values to the pending operation. Tells
the links that were re-entered, and what prevented the next one. -/
def descend : Nat → List Link → List Val → View → M Empty PUnit (List Opened × Except Unwind Unit)
  | 0, _, _, _ => return ([], .error .exhausted)
  | _ + 1, [], values, _ => do
    giveAll values
    return ([], .ok ())
  | fuel + 1, link :: inner, values, window => do
    match ← attempt (reopen link inner.length window) with
    | .error e => return ([], .error e)
    | .ok (code, scratch) =>
      let (opened, ending) ← descend fuel inner values scratch
      return (⟨link, code, window, fuel⟩ :: opened, ending)

/-- Goes on with re-entered links from the innermost on, each with the ending of the one below
it. What it leaves by a tail call is carried out before the next one goes on. -/
def ascend : List Opened → Except Unwind Unit → M Empty PUnit Unit
  | [], .ok () => pure ()
  | [], .error e => throw e
  | o :: opened, ending => do
    ensuring (attempt (ascend opened ending) >>= o.goOn) leave
    drain (runner o.fuel (perform o.fuel)) o.window o.fuel

/-! ## A replay is its two phases -/

theorem reenterFunction_eq (fuel : Nat) (link : Link) (inner : List Link) (values : List Val)
    (window : View) :
    reenterFunction fuel (perform fuel) link inner values window =
      layOut link window >>= fun p =>
        attempt (perform fuel (.replay inner values p.2)) >>=
          Opened.goOn ⟨link, p.1, window, fuel⟩ := by
  obtain ⟨f, index, saved⟩ := link
  funext m
  unfold reenterFunction layOut
  simp only [bind_assoc]
  rw [functionAt_bind, functionAt_bind]
  cases m.heap.function f with
  | closure proto cells =>
    by_cases h : index = 0
    · subst h
      rfl
    · show reenterBody _ _ _ _ _ _ _ _ _ _ m = _
      rw [reenterBody_eq _ _ _ _ _ _ h]
      dsimp only
      rw [if_neg h]
      rfl
  | routine r =>
    by_cases h : index = 0
    · subst h
      rfl
    · show reenterBody _ _ _ _ _ _ _ _ _ _ m = _
      rw [reenterBody_eq _ _ _ _ _ _ h]
      dsimp only
      rw [if_neg h]
      rfl
  | protectedCall p =>
    by_cases h : index = 1
    · subst h
      rfl
    · show Base.resumeProtected _ _ _ _ _ _ _ _ m = _
      unfold Base.resumeProtected
      dsimp only
      rw [if_pos h, if_pos h]
      rfl
  | host h => exact h.elim
  | builtin | wrapped => rfl

theorem ensuring_ok {F S : Type} {x : M F S α} {m t : Machine F S} {a : α} (h : x m = .ok a t) :
    ensuring x leave m = .ok a (leave t) := by
  unfold ensuring
  rw [h]

theorem ensuring_error {F S : Type} {x : M F S α} {m t : Machine F S} {e : Unwind}
    (h : x m = .error e t) : ensuring x leave m = .error e (leave t) := by
  unfold ensuring
  rw [h]

section Phases

variable {x : M Empty PUnit α} {m t : Machine Empty PUnit}

theorem orLeave_ok {a : α} (h : x m = .ok a t) : orLeave x m = .ok a t := by
  unfold orLeave
  rw [h]

theorem orLeave_error {e : Unwind} (h : x m = .error e t) :
    orLeave x m = .error e (leave t) := by
  unfold orLeave
  rw [h]

theorem ensuring_bind (x : M Empty PUnit α) (k : α → M Empty PUnit β) (m : Machine Empty PUnit) :
    ensuring (x >>= k) leave m = (orLeave x >>= fun a => ensuring (k a) leave) m := by
  cases hx : x m with
  | error e t =>
    rw [bind_of_error (orLeave_error hx), ensuring_error (bind_of_error hx)]
  | ok a t =>
    rw [bind_of_ok (orLeave_ok hx)]
    unfold ensuring
    rw [bind_of_ok hx]

/-- Whatever prevents a link from being re-entered, `descend` ends. -/
theorem descend_ok (n : Nat) (links : List Link) (values : List Val) (window : View)
    (m : Machine Empty PUnit) : ∃ opened ending t,
      descend n links values window m = .ok (opened, ending) t := by
  induction links generalizing n window m with
  | nil => cases n <;> exact ⟨_, _, _, rfl⟩
  | cons link inner ih =>
    cases n with
    | zero => exact ⟨_, _, _, rfl⟩
    | succ fuel =>
      rw [descend, attempt_bind]
      cases reopen link inner.length window m with
      | error e t => exact ⟨_, _, _, rfl⟩
      | ok p t =>
        obtain ⟨code, scratch⟩ := p
        obtain ⟨opened, ending, u, h⟩ := ih fuel scratch t
        exact ⟨_, _, _, bind_of_ok h⟩

theorem descend_of_error {link : Link} {inner : List Link} {window : View} {e : Unwind}
    (fuel : Nat) (values : List Val) (h : reopen link inner.length window m = .error e t) :
    descend (fuel + 1) (link :: inner) values window m = .ok ([], .error e) t := by
  rw [descend, attempt_bind, h]
  rfl

theorem descend_of_ok {link : Link} {inner : List Link} {window : View} {p : Reentrant × View}
    {fuel : Nat} {values : List Val} {opened : List Opened} {ending : Except Unwind Unit}
    {u : Machine Empty PUnit} (h : reopen link inner.length window m = .ok p t)
    (hu : descend fuel inner values p.2 t = .ok (opened, ending) u) :
    descend (fuel + 1) (link :: inner) values window m =
      .ok (⟨link, p.1, window, fuel⟩ :: opened, ending) u := by
  rw [descend, attempt_bind, h]
  exact bind_of_ok hu

theorem reenter_eq (fuel : Nat) (link : Link) (inner : List Link) (values : List Val)
    (window : View) :
    reenter (runner fuel (perform fuel)) link inner values window =
      reopen link inner.length window >>= fun p =>
        ensuring (attempt (perform fuel (.replay inner values p.2)) >>=
          Opened.goOn ⟨link, p.1, window, fuel⟩) leave := by
  unfold reenter reopen
  simp only [bind_assoc]
  refine congrArg _ (funext fun _ => congrArg _ (funext fun _ => congrArg _ (funext fun _ => ?_)))
  funext m
  exact (congrArg (ensuring · leave m) (reenterFunction_eq ..)).trans (ensuring_bind ..)

/-- **Replays have two phases.** The links are re-entered from the outermost on, and only then do
bodies go on, from the innermost on. -/
theorem perform_replay (n : Nat) (links : List Link) (values : List Val) (window : View) :
    perform n (.replay links values window) =
      descend n links values window >>= fun p => ascend p.1 p.2 := by
  induction links generalizing n window with
  | nil => cases n <;> rfl
  | cons link inner ih =>
    cases n with
    | zero => rfl
    | succ fuel =>
      funext m
      show (reenter (runner fuel (perform fuel)) link inner values window >>= fun _ =>
        drain (runner fuel (perform fuel)) window fuel) m = _
      rw [reenter_eq]
      cases hr : reopen link inner.length window m with
      | error e t =>
        rw [bind_of_ok (descend_of_error fuel values hr), bind_of_error (bind_of_error hr)]
        rfl
      | ok p t =>
        obtain ⟨opened, ending, u, hu⟩ := descend_ok fuel inner values p.2 t
        rw [bind_of_ok (descend_of_ok hr hu), bind_assoc, bind_of_ok hr, ih, ascend]
        have hbelow : ensuring (attempt (descend fuel inner values p.2 >>= fun p => ascend p.1 p.2) >>=
            Opened.goOn ⟨link, p.1, window, fuel⟩) leave t =
            ensuring (attempt (ascend opened ending) >>= Opened.goOn ⟨link, p.1, window, fuel⟩)
              leave u := by
          unfold ensuring
          rw [attempt_bind, attempt_bind, bind_of_ok hu]
        exact bind_at hbelow

end Phases

/-! ## Links that fit -/

section Fits

variable {F S : Type}

/-- A link that a suspended frame of its function can have left. -/
def Fits (m : Machine F S) (link : Link) : Prop :=
  (m.heap.function link.function).Leaves link.index link.saved

/-- What can leave a link is an object of the heap. -/
theorem Fits.lt_size {m : Machine F S} {link : Link} (h : m.Fits link) :
    link.function.index < m.heap.functions.size := by
  refine Nat.lt_of_not_le fun hf => ?_
  rw [Fits, Heap.function, Array.getD_eq_getD_getElem?, Array.getElem?_eq_none hf] at h
  exact h

theorem Fits.mono {m t : Machine F S} {link : Link} (h : m.Fits link)
    (hfunctions : ∀ f : FnId, f.index < m.heap.functions.size →
      (m.heap.function f).Kept (t.heap.function f)) : t.Fits link :=
  (hfunctions link.function h.lt_size).leaves h

end Fits

/-- A frame that is laid out again, as long as nothing below the window above it changes. -/
theorem linkOf_restored {link : Link} {layout : Layout} {window : View} {s : Stack}
    {m u : Machine Empty PUnit} (hslots : link.saved.slots.length = layout.slots)
    (hs : ∀ i, s.slot i = (window.restore m.thread.stack link.saved.slots).slot i)
    (hu : Stack.KeptBelow (window.base + layout.slots) s u.thread.stack) :
    linkOf link.function (link.reopened layout window) u = link := by
  have hsnapshot : (link.reopened layout window).view.snapshot u.thread.stack layout.slots =
      link.saved.slots := by
    refine View.snapshot_eq _ _ hslots fun i hi => ?_
    show u.thread.stack.slot (window.base + i) = _
    rw [hu.1 _ (Nat.add_lt_add_left hi _), hs, View.slot_restore, if_pos (by omega),
      Nat.add_sub_cancel_left]
  show Link.mk link.function link.index
    ⟨(link.reopened layout window).view.snapshot u.thread.stack layout.slots, link.saved.top,
      link.saved.varargs⟩ = link
  rw [hsnapshot]

/-- A re-entered link holds the frame that was saved and leaves itself again, if what is below
it suspends, as long as nothing below the window above it changes. -/
structure Waits (o : Opened) (u : Machine Empty PUnit) : Prop where
  holds : o.Holds u
  again : ∀ s, ∃ x, o.goOn (.error (.suspend s)) u =
    .error (.suspend ⟨s.values, o.link :: s.chain⟩) { u with trace := x }

theorem Waits.ofBody {link : Link} {layout : Layout} {window : View} {u : Machine Empty PUnit}
    {o : Opened} {body : Body Empty PUnit Unit} (hlink : o.link = link)
    (hframe : o.frame = link.reopened layout window)
    (hgoOn : o.goOn = continueBody link.function body (link.reopened layout window))
    (h : linkOf link.function (link.reopened layout window) u = link) : Waits o u where
  holds := by
    unfold Opened.Holds
    rw [hframe, hlink, h]
  again s := by
    obtain ⟨x, hx⟩ := suspendFrame_ok link.function (link.reopened layout window) s u
    rw [h] at hx
    exact ⟨x, by rw [hgoOn, hlink]; exact hx⟩

/-- A link that fits is laid out again above its window. -/
theorem layOut_ok {link : Link} {m : Machine Empty PUnit} (window : View) (hfit : m.Fits link) :
    ∃ code scratch s t, layOut link window m = .ok (code, scratch) (m.restack s t) ∧
      window.base ≤ scratch.base ∧ Stack.KeptBelow window.base m.thread.stack s ∧
      ∀ fuel u, Stack.KeptBelow scratch.base s u.thread.stack →
        Waits ⟨link, code, window, fuel⟩ u := by
  unfold Fits at hfit
  unfold layOut
  rw [functionAt_bind]
  cases hc : m.heap.function link.function with
  | closure proto cells =>
    rw [hc] at hfit
    obtain ⟨hindex, hslots⟩ := hfit
    obtain ⟨s, t, hs, hkept, hk⟩ := reopen_ok proto.layout window link.index link.saved m
    dsimp only
    rw [if_neg hindex]
    refine ⟨.closure proto, ⟨window.base + proto.layout.slots, 0⟩, s, t,
      hk fun _ scratch => pure (Reentrant.closure proto, scratch), Nat.le_add_right _ _, hkept,
      fun fuel u hu => ?_⟩
    exact .ofBody rfl rfl rfl (linkOf_restored hslots hs hu)
  | routine r =>
    rw [hc] at hfit
    obtain ⟨hindex, hslots⟩ := hfit
    obtain ⟨s, t, hs, hkept, hk⟩ := reopen_ok r.layout window link.index link.saved m
    dsimp only
    rw [if_neg hindex]
    refine ⟨.routine r, ⟨window.base + r.layout.slots, 0⟩, s, t,
      hk fun _ scratch => pure (Reentrant.routine r, scratch), Nat.le_add_right _ _, hkept,
      fun fuel u hu => ?_⟩
    exact .ofBody rfl rfl rfl (linkOf_restored hslots hs hu)
  | protectedCall p =>
    rw [hc] at hfit
    obtain ⟨f, index, saved⟩ := link
    obtain ⟨rfl, handler, rfl⟩ := hfit
    exact ⟨_, _, _, m.trace, rfl, Nat.le_refl _, .refl _ _, fun fuel u _ =>
      ⟨rfl, fun s => suspendWith_ok f 1 ⟨[], 0, [handler]⟩ s u⟩⟩
  | builtin | wrapped | host => rw [hc] at hfit; exact hfit.elim

/-- A link that fits is re-entered, unless the depth is at its limit. -/
theorem reopen_cases {link : Link} {m : Machine Empty PUnit} (below : Nat) (window : View)
    (hfit : m.Fits link) :
    (∃ t, reopen link below window m = .error (.fault (.stackOverflow m.thread.depth)) t ∧
      t.thread.stack = m.thread.stack) ∨
    ∃ p t, reopen link below window m = .ok p t ∧ t.heap = m.heap ∧ window.base ≤ p.2.base ∧
      Stack.KeptBelow window.base m.thread.stack t.thread.stack ∧
      ∀ fuel u, Stack.KeptBelow p.2.base t.thread.stack u.thread.stack →
        Waits ⟨link, p.1, window, fuel⟩ u := by
  obtain ⟨x, hx⟩ := record_ok m fun _ =>
    .replay (m.heap.function link.function).name link.index below
  let m₁ : Machine Empty PUnit := { m with trace := x }
  have hreopen : reopen link below window m = (do enter; orLeave (layOut link window)) m₁ :=
    bind_of_ok hx
  have henter := Regime.enter_eq m₁
  rw [hreopen]
  by_cases hdepth : m.world.config.maxCallDepth ≤ m.thread.depth
  · rw [if_pos hdepth] at henter
    exact .inl ⟨m₁, bind_of_error henter, rfl⟩
  · rw [if_neg hdepth] at henter
    have hfit : (entered m₁).Fits link := hfit
    obtain ⟨code, scratch, s, t, h, habove, hkept, hwaits⟩ := layOut_ok window hfit
    exact .inr ⟨(code, scratch), (entered m₁).restack s t,
      (bind_of_ok henter).trans (orLeave_ok h), rfl, habove, hkept, hwaits⟩

/-- How a descent through links that fit ends. -/
structure Descended (links : List Link) (values : List Val) (base : Nat)
    (m : Machine Empty PUnit) (opened : List Opened) (ending : Except Unwind Unit)
    (u : Machine Empty PUnit) : Prop where
  /-- The links are re-entered in order, each at most once. -/
  order : opened.map Opened.link <+: links
  /-- All are, and then the pending operation sees the values, unless the depth or the fuel
  comes to its limit. -/
  ending : (ending = .ok () ∧ opened.map Opened.link = links ∧
      u.thread.results = .ofValues values) ∨
    ending = .error .exhausted ∨ ∃ depth, ending = .error (.fault (.stackOverflow depth))
  kept : Stack.KeptBelow base m.thread.stack u.thread.stack
  /-- The re-entered links hold what was saved. -/
  waits : ∀ o ∈ opened, Waits o u

theorem descend_spec (n : Nat) {links : List Link} (values : List Val) (window : View)
    {m : Machine Empty PUnit} (hfit : ∀ link ∈ links, m.Fits link) : ∃ opened ending u,
      descend n links values window m = .ok (opened, ending) u ∧
        Descended links values window.base m opened ending u := by
  induction links generalizing n window m with
  | nil =>
    cases n with
    | zero =>
      exact ⟨_, _, _, rfl, List.nil_prefix, .inr (.inl rfl), .refl _ _, nofun⟩
    | succ fuel =>
      exact ⟨_, _, _, rfl, List.nil_prefix, .inl ⟨rfl, rfl, rfl⟩, .refl _ _, nofun⟩
  | cons link inner ih =>
    cases n with
    | zero =>
      exact ⟨_, _, _, rfl, List.nil_prefix, .inr (.inl rfl), .refl _ _, nofun⟩
    | succ fuel =>
      obtain ⟨t, ht, hstack⟩ | ⟨p, t, ht, hheap, habove, hkept, hwaits⟩ :=
        reopen_cases inner.length window (hfit link List.mem_cons_self)
      · exact ⟨_, _, t, descend_of_error fuel values ht, List.nil_prefix,
          .inr (.inr ⟨_, rfl⟩), hstack ▸ .refl _ _, nofun⟩
      · have hinner : ∀ link ∈ inner, t.Fits link := fun link hlink => by
          rw [Fits, hheap]
          exact hfit link (List.mem_cons_of_mem _ hlink)
        obtain ⟨opened, ending, u, hu, h⟩ := ih fuel p.2 hinner
        refine ⟨_, _, u, descend_of_ok ht hu, ?_, ?_, ?_, ?_⟩
        · exact (List.prefix_cons_inj link).2 h.order
        · obtain ⟨hending, hlinks, hvalues⟩ | hending := h.ending
          · exact .inl ⟨hending, congrArg (link :: ·) hlinks, hvalues⟩
          · exact .inr hending
        · exact hkept.trans (h.kept.mono habove)
        · intro o ho
          obtain rfl | ho := List.mem_cons.1 ho
          · exact hwaits fuel u h.kept
          · exact h.waits o ho

/-- What waits for a suspended replay leaves its own link around what that leaves. -/
theorem ascend_cons {o : Opened} {opened : List Opened} {ending : Except Unwind Unit}
    {s : Suspension} {u v : Machine Empty PUnit}
    (h : ascend opened ending u = .error (.suspend s) v) (ho : Waits o v) :
    ∃ w, ascend (o :: opened) ending u = .error (.suspend ⟨s.values, o.link :: s.chain⟩) w := by
  obtain ⟨x, hx⟩ := ho.again s
  have hgoOn : (attempt (ascend opened ending) >>= o.goOn) u =
      .error (.suspend ⟨s.values, o.link :: s.chain⟩) { v with trace := x } := by
    rw [attempt_bind, h]
    exact hx
  exact ⟨_, bind_of_error (ensuring_error hgoOn)⟩

/-- A replay is suspended by one of its links that went on; the links around it, which have not
gone on, are left again, in the same order and with the same frames, around what it leaves. -/
def LeftAgain (opened : List Opened) (ending : Except Unwind Unit) (u : Machine Empty PUnit)
    (s : Suspension) : Prop :=
  ∃ outer o rest s' w, opened = outer ++ o :: rest ∧
    (∀ t w, ascend rest ending u ≠ .error (.suspend t) w) ∧
    ascend (o :: rest) ending u = .error (.suspend s') w ∧
    s = ⟨s'.values, outer.map Opened.link ++ s'.chain⟩

theorem ascend_suspends {n : Nat} {links : List Link} {values : List Val} {window : View}
    {m u v : Machine Empty PUnit} {opened : List Opened} {ending : Except Unwind Unit}
    {s : Suspension} (hfit : ∀ link ∈ links, m.Fits link)
    (hdescend : descend n links values window m = .ok (opened, ending) u)
    (hascend : ascend opened ending u = .error (.suspend s) v) : LeftAgain opened ending u s := by
  induction links generalizing n window m opened s v with
  | nil => cases n <;> cases hdescend <;> cases hascend
  | cons link inner ih =>
    cases n with
    | zero => cases hdescend; cases hascend
    | succ fuel =>
      obtain ⟨t, ht, -⟩ | ⟨p, t, ht, hheap, -, -, hwaits⟩ :=
        reopen_cases inner.length window (hfit link List.mem_cons_self)
      · rw [descend_of_error fuel values ht] at hdescend
        cases hdescend
        cases hascend
      · have hinner : ∀ link ∈ inner, t.Fits link := fun link hlink => by
          rw [Fits, hheap]
          exact hfit link (List.mem_cons_of_mem _ hlink)
        obtain ⟨opened', ending', u', hbelow⟩ := descend_ok fuel inner values p.2 t
        rw [descend_of_ok ht hbelow] at hdescend
        cases hdescend
        by_cases hsuspends : ∃ s w, ascend opened' ending u = .error (.suspend s) w
        · obtain ⟨s₁, w₁, h₁⟩ := hsuspends
          have hreplay : perform fuel (.replay inner values p.2) t = .error (.suspend s₁) w₁ := by
            rw [perform_replay, bind_of_ok hbelow]
            exact h₁
          have hkept := (Dispatch.run_isolated fuel p.2 (.replay inner values)).kept
            (m := t) (t := w₁) (by rw [Dispatch.run, hreplay]; exact ⟨trivial, rfl⟩)
          obtain ⟨w, hw⟩ := ascend_cons h₁ (hwaits fuel w₁ hkept)
          rw [hw] at hascend
          cases hascend
          obtain ⟨outer, o, rest, s', w', rfl, hrest, ho, rfl⟩ := ih hinner hbelow h₁
          exact ⟨_ :: outer, o, rest, s', w', rfl, hrest, ho, rfl⟩
        · exact ⟨[], _, opened', s, v, rfl, fun t w h => hsuspends ⟨t, w, h⟩, hascend, rfl⟩

end Machine

end ScriptCore
