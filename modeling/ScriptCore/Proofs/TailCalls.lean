import Mathlib.Data.List.Forall2
import ScriptCore.Proofs.NoLeaks
import ScriptCore.Proofs.Parameters
import ScriptCore.Proofs.SpelledCalls

/-!
# Tail calls agree with calls

A tail call may be spelled out as a call and the return of all its results, in as many bodies of a
program as one likes (`Machine.Spells`). The two programs then do the same in a whole session of
errands (`session`): the errands end in the same ways, values yielded on the way included, and the
machines have written the same to tables and cells in the same order (`SameSession`). This is
`session_abides`, from what is known of one request (`Mirrors`).

A call that is spelled out keeps its frame, so the programs agree only as long as the one with calls
stays clear of a stack overflow; then so does the other, and one of them comes to an end exactly if
the other does (`tail_calls_agree_with_calls`). Two things tell them apart: a register behind the
function of a call, where the callee has left what is no result of it, and the place of an operation
in the message of a failed append (`tail_calls_are_no_calls`).
-/

namespace ScriptCore

open Machine

/-! ## Programs -/

/-- A machine with other functions in the place of its own. -/
def Machine.withFunctions (m : Machine Empty PUnit) (functions : Array (Callable Empty)) :
    Machine Empty PUnit :=
  { m with heap := { m.heap with functions := functions } }

/-- The functions are those of the machine with some tail calls spelled out, and closures have the
same cells. No coroutine of the machine is suspended in the midst of a call. -/
structure Machine.Spells (m : Machine Empty PUnit) (functions : Array (Callable Empty)) : Prop where
  size : m.heap.functions.size = functions.size
  spelled : ∀ f, (m.heap.function f).SpelledOut ((m.withFunctions functions).heap.function f)
  alike : ∀ f, (m.heap.function f).Alike ((m.withFunctions functions).heap.function f)
  still : ∀ co chain, m.heap.coroutine co ≠ .suspended chain
  depth : m.thread.depth ≤ m.world.config.maxCallDepth

/-- The same calls are in progress on both sides. -/
def Depths.of (m : Machine Empty PUnit) : Depths :=
  ⟨m.thread.depth, m.thread.depth, m.world.config.maxCallDepth, Nat.le_refl _⟩

theorem Machine.Spells.kindred {m : Machine Empty PUnit} {functions : Array (Callable Empty)}
    (h : m.Spells functions) : Kindred (.of m) False m (m.withFunctions functions) where
  tables := rfl
  cells := rfl
  count := h.size
  functions := h.alike
  world := .refl _
  output := rfl
  journal := rfl
  results := False.elim
  leftDepth := rfl
  rightDepth := rfl
  limit := rfl
  inLimit := h.depth
  boundaries := rfl
  current := rfl
  covers := h.spelled
  coroutineCount := rfl
  coroutines co := .still (h.still co)

/-! ## Sessions -/

/-- How an errand ends: with an outcome and results, or early. -/
abbrev Errand.Ending := Except Unwind (Option Outcome × Results)

/-- The errand was not carried out to its end, for want of fuel or at a stack overflow. -/
def Errand.Ending.givenUp : Errand.Ending → Bool
  | .error .exhausted | .error .overflow => true
  | _ => false

/-- Two endings give the same, or tell the same cause. -/
inductive Errand.Ending.Restates : Errand.Ending → Errand.Ending → Prop
  | ok (u : Option Outcome × Results) : Restates (.ok u) (.ok u)
  | error {e e' : Unwind} (h : e.Restates e') : Restates (.error e) (.error e')

namespace Errand

/-- Does an errand, and takes down how it ends. -/
def ending (P : Perform Empty PUnit) (e : Errand) (m : Machine Empty PUnit) :
    Errand.Ending × Machine Empty PUnit :=
  match e.run P .root m with
  | .ok outcome t => (.ok (outcome, t.thread.results), t)
  | .error cause t => (.error cause, t)

end Errand

/-- Does errands one after another, until one is given up. -/
def session (P : Perform Empty PUnit) : List Errand → Machine Empty PUnit →
    List Errand.Ending × Machine Empty PUnit
  | [], m => ([], m)
  | e :: rest, m =>
    let first := e.ending P m
    if first.1.givenUp then ([first.1], first.2)
    else
      let later := session P rest first.2
      (first.1 :: later.1, later.2)

/-- Two sessions have the same endings and the same effects. -/
structure SameSession (x y : List Errand.Ending × Machine Empty PUnit) : Prop where
  endings : List.Forall₂ Errand.Ending.Restates x.1 y.1
  effects : x.2.Kin y.2

section Sessions

variable {side : Side} {ds : Depths} {heard : Prop} {a b : Machine Empty PUnit}
variable {P P' : Perform Empty PUnit}

/-- An errand on kindred machines, on any windows. -/
theorem Errand.run_abides (hm : Mirrors side ds P P') (h : Kindred ds heard a b) (e : Errand)
    (w w' : View) :
    Abides side (Fallen ds) (fun o o' a b => o = o' ∧ Kindred ds True a b) (e.run P w a)
      (e.run P' w' b) := by
  cases e with
  | call target args =>
    have hcall : Abides side (Fallen ds) (fun _ _ => Kindred ds True)
        ((Machine.load w args >>= fun w => P (.call w target)) a)
        ((Machine.load w' args >>= fun w' => P' (.call w' target)) b) :=
      h.load w w' args fun w w' a b h => hm.call target h
    exact hcall.bind fun _ _ _ _ h => .ok ⟨rfl, h⟩
  | resume co args =>
    refine (resume_abides hm h w w' co args).bind fun o _ a b hend => ?_
    obtain ⟨rfl, h⟩ := hend
    exact .ok ⟨rfl, h⟩

theorem Errand.Ending.Restates.not_givenUp {r r' : Errand.Ending} (h : r.Restates r') :
    r.givenUp = false ∧ r'.givenUp = false := by
  cases h with
  | ok => exact ⟨rfl, rfl⟩
  | error h => cases h <;> exact ⟨rfl, rfl⟩

/-- Two endings that abide, or of which one was given up. -/
theorem Errand.ending_abides (hm : Mirrors side ds P P') (h : Kindred ds heard a b) (e : Errand) :
    ((e.ending P a).1.Restates (e.ending P' b).1 ∧
      Kindred ds False (e.ending P a).2 (e.ending P' b).2) ∨
    (e.ending P' b).1 = .error .overflow ∨ (side = .left ∧ (e.ending P a).1 = .error .exhausted) ∨
    (side = .right ∧ (e.ending P' b).1 = .error .exhausted) := by
  have hends := e.run_abides hm h .root .root
  unfold ending
  generalize e.run P .root a = r, e.run P' .root b = r' at hends
  cases hends with
  | ok h =>
    obtain ⟨rfl, h⟩ := h
    refine .inl ⟨?_, h.astray⟩
    show Errand.Ending.Restates (.ok (_, _)) (.ok (_, _))
    rw [h.results trivial]
    exact .ok _
  | error h => exact .inl ⟨.error h.restates, h.toKindred⟩
  | spent h =>
    cases h with
    | overflow => exact .inr (.inl rfl)
    | left => exact .inr (.inr (.inl ⟨rfl, rfl⟩))
    | right => exact .inr (.inr (.inr ⟨rfl, rfl⟩))

theorem session_of_givenUp {e : Errand} {rest : List Errand} {m : Machine Empty PUnit}
    (h : (e.ending P m).1.givenUp = true) :
    session P (e :: rest) m = ([(e.ending P m).1], (e.ending P m).2) := if_pos h

theorem session_of_done {e : Errand} {rest : List Errand} {m : Machine Empty PUnit}
    (h : (e.ending P m).1.givenUp = false) :
    session P (e :: rest) m = ((e.ending P m).1 :: (session P rest (e.ending P m).2).1,
      (session P rest (e.ending P m).2).2) := if_neg (h ▸ Bool.false_ne_true)

/-- **Sessions.** Sessions on kindred machines are the same, unless one was given up for want of
fuel. -/
theorem session_abides (hm : Mirrors side ds P P') (errands : List Errand)
    (h : Kindred ds heard a b) (hroom : .error .overflow ∉ (session P' errands b).1) :
    SameSession (session P errands a) (session P' errands b) ∨
    (side = .left ∧ .error .exhausted ∈ (session P errands a).1 ∧
      .error .overflow ∉ (session P errands a).1) ∨
    (side = .right ∧ .error .exhausted ∈ (session P' errands b).1) := by
  induction errands generalizing heard a b with
  | nil => exact .inl ⟨.nil, h.toKin⟩
  | cons e rest ih =>
    obtain ⟨hsame, hkindred⟩ | hover | ⟨rfl, hspent⟩ | ⟨rfl, hspent⟩ := e.ending_abides hm h
    · obtain ⟨hleft, hright⟩ := hsame.not_givenUp
      rw [session_of_done hleft, session_of_done hright] at *
      have hrest := ih hkindred fun hmem => hroom (List.mem_cons_of_mem _ hmem)
      obtain hrest | ⟨rfl, hexhausted, hnone⟩ | ⟨rfl, hexhausted⟩ := hrest
      · exact .inl ⟨.cons hsame hrest.endings, hrest.effects⟩
      · refine .inr (.inl ⟨rfl, List.mem_cons_of_mem _ hexhausted, fun hmem => ?_⟩)
        obtain heq | hmem := List.mem_cons.1 hmem
        · rw [← heq] at hleft
          cases hleft
        · exact hnone hmem
      · exact .inr (.inr ⟨rfl, List.mem_cons_of_mem _ hexhausted⟩)
    · rw [session_of_givenUp (by rw [hover]; rfl), hover] at hroom
      exact (hroom List.mem_cons_self).elim
    · rw [session_of_givenUp (by rw [hspent]; rfl), hspent]
      refine .inr (.inl ⟨rfl, List.mem_cons_self, fun hmem => ?_⟩)
      obtain heq | hmem := List.mem_cons.1 hmem
      · cases heq
      · cases hmem
    · rw [session_of_givenUp (m := b) (by rw [hspent]; rfl), hspent]
      exact .inr (.inr ⟨rfl, List.mem_cons_self⟩)

end Sessions

theorem not_givenUp_of_mem {rs rs' : List Errand.Ending}
    (h : List.Forall₂ Errand.Ending.Restates rs rs') {r : Errand.Ending} (hr : r ∈ rs) : r.givenUp = false := by
  induction h with
  | nil => cases hr
  | cons hhead _ ih =>
    obtain rfl | hr := List.mem_cons.1 hr
    · exact hhead.not_givenUp.1
    · exact ih hr

theorem SameSession.not_overflow {x y : List Errand.Ending × Machine Empty PUnit} (h : SameSession x y) :
    .error .overflow ∉ x.1 := fun hmem => Bool.noConfusion (not_givenUp_of_mem h.endings hmem)

/-! ## Runs without a stack overflow -/

/-- Unless a session is given up, it goes in the same way where it could not have been. -/
theorem session_outlasts {c : Limit} {P P' : Perform Empty PUnit}
    (hP : ∀ request, Outlasts c (P request) (P' request)) (errands : List Errand)
    (m : Machine Empty PUnit) (h : .error c.cause ∉ (session P errands m).1) :
    session P errands m = session P' errands m := by
  induction errands generalizing m with
  | nil => rfl
  | cons e rest ih =>
    have hending : e.ending P m = e.ending P' m := by
      obtain ⟨t, ht⟩ | heq := e.run_outlasts hP .root m
      · have hcause : (e.ending P m).1 = .error c.cause := by
          rw [Errand.ending, ht]
        rw [session_of_givenUp (by rw [hcause]; cases c <;> rfl), hcause] at h
        exact (h List.mem_cons_self).elim
      · rw [Errand.ending, Errand.ending, heq]
    cases hgiven : (e.ending P m).1.givenUp with
    | true => rw [session_of_givenUp hgiven, session_of_givenUp (hending ▸ hgiven), hending]
    | false =>
      rw [session_of_done hgiven] at h
      have hrest := ih _ fun hmem => h (List.mem_cons_of_mem _ hmem)
      rw [session_of_done hgiven, session_of_done (hending ▸ hgiven), hrest, hending]

/-- **Tail calls agree with calls.** Where the program with the calls never finds the stack too deep,
neither does the one with the tail calls. If a session of one of them is not cut short, the other has
the same session; the fuel for it is bounded by that of the first. -/
theorem tail_calls_agree_with_calls (m : Machine Empty PUnit) (functions : Array (Callable Empty))
    (h : m.Spells functions) (errands : List Errand)
    (hroom : ∀ n, .error .overflow ∉ (session (roomy n) errands (m.withFunctions functions)).1) :
    (∀ k, .error .overflow ∉ (session (roomy k) errands m).1 ∧
      session (roomy k) errands m = session (perform k) errands m) ∧
    (∀ n, .error .exhausted ∉ (session (perform n) errands (m.withFunctions functions)).1 →
      ∀ k, n * n < k → SameSession (session (perform k) errands m)
        (session (perform n) errands (m.withFunctions functions))) ∧
    ∀ k, .error .exhausted ∉ (session (perform k) errands m).1 →
      ∀ n, m.world.config.maxCallDepth + k < n → SameSession (session (perform k) errands m)
        (session (perform n) errands (m.withFunctions functions)) := by
  have hsame := fun n => session_outlasts (roomy_outlasts n) errands (m.withFunctions functions) (hroom n)
  -- With so much fuel the right run cannot run out of it before the left one does: it takes one
  -- more for each call that is in progress, and there are not more than the limit.
  have hleft : ∀ k n, m.world.config.maxCallDepth + k < n →
      .error .overflow ∉ (session (roomy k) errands m).1 ∧
        (.error .exhausted ∉ (session (roomy k) errands m).1 →
          SameSession (session (roomy k) errands m)
            (session (roomy n) errands (m.withFunctions functions))) := by
    intro k n hn
    have hm : Mirrors .left (.of m) (roomy k) (roomy n) :=
      roomy_mirrors_left (Nat.lt_of_lt_of_le hn (Nat.le_add_left n _))
    obtain hends | ⟨-, hexhausted, hnone⟩ | ⟨hside, -⟩ := session_abides hm errands h.kindred (hroom n)
    · exact ⟨hends.not_overflow, fun _ => hends⟩
    · exact ⟨hnone, fun hends => (hends hexhausted).elim⟩
    · cases hside
  have hnone := fun k => (hleft k _ (Nat.lt_succ_self _)).1
  have hsame' := fun k => session_outlasts (roomy_outlasts k) errands m (hnone k)
  refine ⟨fun k => ⟨hnone k, hsame' k⟩, fun n hends k hk => ?_, fun k hends n hn => ?_⟩
  · have hm : Mirrors .right (.of m) (roomy k) (roomy n) := roomy_mirrors_right hk
    rw [← hsame] at hends ⊢
    rw [← hsame']
    obtain hsession | ⟨hside, -⟩ | ⟨-, hexhausted⟩ := session_abides hm errands h.kindred (hroom n)
    · exact hsession
    · cases hside
    · exact (hends hexhausted).elim
  · rw [← hsame'] at hends ⊢
    rw [← hsame]
    exact (hleft k n hn).2 hends

/-- Calls its parameter by some operations. -/
def Proto.forwarding (ops : Array Op) : Proto :=
  { ofName "forwarding" with
    params := 1
    slots := 1
    code := ops }

theorem Proto.forwarding_spells : (forwarding #[.tailCall 0 (.fixed 0)]).Spells (· == 0)
    (forwarding #[.call 0 (.fixed 0) .open, .ret 0 .open]) where
  name := rfl
  params := rfl
  vararg := rfl
  slots := rfl
  reified := rfl
  constants := rfl
  upvalues := rfl
  size := rfl
  kept {pc op} hop hcut := by
    rcases pc with _ | pc
    · cases hcut
    · cases hop
  spelled {pc} hcut := by
    obtain rfl : pc = 0 := eq_of_beq hcut
    exact ⟨_, _, rfl, rfl, rfl⟩

theorem Proto.forwarding_orderly : (forwarding #[.tailCall 0 (.fixed 0)]).Orderly := by
  have hcode : ∀ {pc : Nat} {op : Op}, (forwarding #[.tailCall 0 (.fixed 0)]).code[pc]? = some op →
      op = .tailCall 0 (.fixed 0) := fun {pc op} hop => by
    rcases pc with _ | pc
    · exact (Option.some.inj hop).symm
    · cases hop
  have hexposed : ∀ {pc top r}, ¬ (forwarding #[.tailCall 0 (.fixed 0)]).Exposed pc top r := by
    intro pc top r h
    induction h with
    | left _ hop => cases hcode hop
    | kept _ _ _ _ _ ih => exact ih
  refine .intro rfl ⟨fun _ _ => hexposed, fun hop htakes => ?_, fun hop htakes => ?_⟩ nofun
  · cases hcode hop
    exact htakes.elim
  · cases hcode hop
    exact htakes.elim

/-- A machine with a function that calls its argument. -/
def Machine.withForwarding (ops : Array Op) : Machine Empty PUnit :=
  { start ⟨#[], #[], #[.builtin .running, .closure (.forwarding ops) #[]], #[]⟩ ⟨200, 4, 100⟩ none
      ⟨⟩ with journal := some #[] }

theorem Machine.withForwarding_spells : (withForwarding #[.tailCall 0 (.fixed 0)]).Spells
    (withForwarding #[.call 0 (.fixed 0) .open, .ret 0 .open]).heap.functions where
  size := rfl
  spelled f := by
    obtain ⟨i⟩ := f
    rcases i with _ | _ | i
    · exact .builtin .running
    · exact .closure Proto.forwarding_orderly (.intro (fun _ _ => nofun) nofun)
        (.intro Proto.forwarding_spells rfl nofun) #[] #[]
    · exact .builtin _
  alike f := by
    obtain ⟨i⟩ := f
    rcases i with _ | _ | i
    · exact .same _
    · exact .bodies #[] Proto.forwarding_spells.alike
    · exact .same _
  still co chain := nofun
  depth := Nat.zero_le _

/-- Called on a library function that gives nil and true, the function spelled out does not reach
the limit. -/
theorem Machine.withForwarding_roomy (n : Nat) : .error .overflow ∉
    (session (roomy n) [.call (.fn ⟨1⟩) [.fn ⟨0⟩]]
      (withForwarding #[.call 0 (.fixed 0) .open, .ret 0 .open])).1 := by
  have hends : ((session (roomy 3) [.call (.fn ⟨1⟩) [.fn ⟨0⟩]]
      (withForwarding #[.call 0 (.fixed 0) .open, .ret 0 .open])).1.map Errand.Ending.givenUp) = [false] := by
    decide +kernel
  have hnone : ∀ c : Limit, .error c.cause ∉ (session (roomy 3) [.call (.fn ⟨1⟩) [.fn ⟨0⟩]]
      (withForwarding #[.call 0 (.fixed 0) .open, .ret 0 .open])).1 := fun c hmem => by
    have hgiven := List.mem_map_of_mem (f := Errand.Ending.givenUp) hmem
    rw [hends] at hgiven
    cases c <;> cases List.mem_singleton.1 hgiven
  obtain hn | hn := Nat.lt_or_ge n 3
  · have hshort : (session (roomy n) [.call (.fn ⟨1⟩) [.fn ⟨0⟩]]
        (withForwarding #[.call 0 (.fixed 0) .open, .ret 0 .open])).1 = [.error .exhausted] := by
      match n, hn with
      | 0, _ | 1, _ | 2, _ => rfl
    rw [hshort]
    simp
  · rw [← session_outlasts (fun request => roomy_lasts hn request) _ _ (hnone .fuel)]
    exact hnone .depth

theorem tail_calls_agree_with_calls_forwarding :
    (withForwarding #[.tailCall 0 (.fixed 0)]).Spells
      (withForwarding #[.call 0 (.fixed 0) .open, .ret 0 .open]).heap.functions ∧
    (∀ n, .error .overflow ∉ (session (roomy n) [.call (.fn ⟨1⟩) [.fn ⟨0⟩]]
      (withForwarding #[.call 0 (.fixed 0) .open, .ret 0 .open])).1) ∧
    ∀ k, .error .overflow ∉ (session (roomy k) [.call (.fn ⟨1⟩) [.fn ⟨0⟩]]
        (withForwarding #[.tailCall 0 (.fixed 0)])).1 ∧
      session (roomy k) [.call (.fn ⟨1⟩) [.fn ⟨0⟩]] (withForwarding #[.tailCall 0 (.fixed 0)]) =
        session (perform k) [.call (.fn ⟨1⟩) [.fn ⟨0⟩]] (withForwarding #[.tailCall 0 (.fixed 0)]) :=
  ⟨withForwarding_spells, withForwarding_roomy,
    (tail_calls_agree_with_calls _ _ withForwarding_spells _ withForwarding_roomy).1⟩

/-! ## Where they differ -/

theorem spread_none (n : Nat) : spread (fun _ => false) n = n := by
  induction n with
  | zero => rfl
  | succ n ih => rw [spread_kept rfl, ih]

namespace Proto

/-- A body in which no tail call is spelled out. -/
theorem spells_self (p : Proto) (children : List Proto) :
    p.Spells (fun _ => false) { p with children := children } where
  name := rfl
  params := rfl
  vararg := rfl
  slots := rfl
  reified := rfl
  constants := rfl
  upvalues := rfl
  size := (spread_none _).symm
  kept {pc op} hop _ := by
    rw [spread_none]
    refine ⟨op, hop, ?_⟩
    cases op with
    | jump dest => exact .jump (spread_none _).symm
    | test cond when dest => exact .test cond when (spread_none _).symm
    | _ => exact .same fun _ => id
  spelled := nofun

/-- Leaves its name in its register. -/
def naming : Proto :=
  { ofName "naming" with
    slots := 1
    constants := #[.str "g"]
    code := #[.const 0 0, .ret 0 (.fixed 0)] }

/-- Calls `naming` by some operations, with a value in the register behind it. -/
def deferring (ops : Array Op) : Proto :=
  { ofName "deferring" with
    slots := 2
    constants := #[.str "t"]
    code := #[.const 1 0, .closure 0 0] ++ ops
    children := [naming] }

/-- Returns what a call has left in a register behind the results. -/
def prying (callee : Proto) : Proto :=
  { ofName "prying" with
    slots := 3
    code := #[.closure 0 0, .call 0 (.fixed 0) (.fixed 0), .ret 2 (.fixed 1)]
    children := [callee] }

/-- Fails behind some operations over which it jumps. -/
def failing (dest : UInt32) (ops : Array Op) : Proto :=
  { ofName "failing" with
    slots := 1
    code := #[.jump dest] ++ ops ++ #[.append 0 0 (.fixed 0) 1] }

theorem deferring_spells : (deferring #[.tailCall 0 (.fixed 0)]).Spells (· == 2)
    (deferring #[.call 0 (.fixed 0) .open, .ret 0 .open]) where
  name := rfl
  params := rfl
  vararg := rfl
  slots := rfl
  reified := rfl
  constants := rfl
  upvalues := rfl
  size := rfl
  kept {pc op} hop hcut := by
    rcases pc with _ | _ | _ | pc
    · cases hop
      exact ⟨_, rfl, .same fun _ => id⟩
    · cases hop
      exact ⟨_, rfl, .same fun _ => id⟩
    · cases hcut
    · cases hop
  spelled {pc} hcut := by
    obtain rfl : pc = 2 := eq_of_beq hcut
    exact ⟨_, _, rfl, rfl, rfl⟩

theorem failing_spells : (failing 2 #[.tailCall 0 (.fixed 0)]).Spells (· == 1)
    (failing 3 #[.call 0 (.fixed 0) .open, .ret 0 .open]) where
  name := rfl
  params := rfl
  vararg := rfl
  slots := rfl
  reified := rfl
  constants := rfl
  upvalues := rfl
  size := rfl
  kept {pc op} hop hcut := by
    rcases pc with _ | _ | _ | pc
    · cases hop
      exact ⟨_, rfl, .jump rfl⟩
    · cases hcut
    · cases hop
      exact ⟨_, rfl, .same fun _ => id⟩
    · cases hop
  spelled {pc} hcut := by
    obtain rfl : pc = 1 := eq_of_beq hcut
    exact ⟨_, _, rfl, rfl, rfl⟩

/-- A body takes no spans of open length if its operations have fixed counts. -/
theorem prompt_of_fixed {p : Proto} (h : ∀ op ∈ p.code, ∀ base, ¬ op.Takes base) : p.Prompt where
  fed hop htakes := (h _ (Array.mem_of_getElem? hop) _ htakes).elim
  unjumped hop htakes := (h _ (Array.mem_of_getElem? hop) _ htakes).elim

/-- A body without captured variables has none in the windows of its calls. -/
theorem byValue_of_bare {p : Proto} (h : p.reified = #[]) (children : ∀ q ∈ p.children, q.ByValue) :
    p.ByValue :=
  .intro (fun _ _ hreified => by
    rw [isReified, h] at hreified
    cases hreified) children

/-- A body that is handed over, and a tail call that is spelled out in it. -/
theorem prying_spelledOut : (prying (deferring #[.tailCall 0 (.fixed 0)])).SpelledOut
    (prying (deferring #[.call 0 (.fixed 0) .open, .ret 0 .open])) := by
  refine .intro (spells_self _ _) rfl fun i c d hc hd => ?_
  cases i with
  | zero =>
    cases hc
    cases hd
    refine .intro deferring_spells rfl fun i c d hc hd => ?_
    cases i with
    | zero =>
      cases hc
      cases hd
      exact .intro (spells_self naming []) rfl nofun
    | succ => cases hc
  | succ => cases hc

theorem prying_valid : (prying (deferring #[.tailCall 0 (.fixed 0)])).Valid := by
  have hnaming : naming.Valid := .intro rfl (prompt_of_fixed (by
    simp [naming, Op.Takes])) nofun
  have hdeferring : (deferring #[.tailCall 0 (.fixed 0)]).Valid := .intro rfl (prompt_of_fixed (by
    simp [deferring, Op.Takes])) (by simpa [deferring] using hnaming)
  exact .intro rfl (prompt_of_fixed (by simp [prying, Op.Takes])) (by simpa [prying] using hdeferring)

theorem failing_spelledOut : (failing 2 #[.tailCall 0 (.fixed 0)]).SpelledOut
    (failing 3 #[.call 0 (.fixed 0) .open, .ret 0 .open]) :=
  .intro failing_spells rfl fun i _ _ hc => by cases i <;> cases hc

theorem failing_valid : (failing 2 #[.tailCall 0 (.fixed 0)]).Valid :=
  .intro rfl (prompt_of_fixed (by simp [failing, Op.Takes])) nofun

theorem prying_byValue : (prying (deferring #[.tailCall 0 (.fixed 0)])).ByValue := by
  have hnaming : naming.ByValue := byValue_of_bare rfl nofun
  have hdeferring : (deferring #[.tailCall 0 (.fixed 0)]).ByValue :=
    byValue_of_bare rfl (by simpa [deferring] using hnaming)
  exact byValue_of_bare rfl (by simpa [prying] using hdeferring)

end Proto

namespace Machine

/-- What a body that is checked, loaded, and called on a new machine returns, or its fault. -/
def made (P : Perform Empty PUnit) (p : Proto) : Except (Option Fault) (List Val) :=
  match (do callFromOutside P (← loadProto p) [] : M Empty PUnit (List Val))
      (start .empty ⟨200, 16, 100⟩ none ⟨⟩) with
  | .ok values _ => .ok values
  | .error (.fault f) _ => .error (some f)
  | .error _ _ => .error none

/-- The frame of a tail call is given up, so what its callee leaves behind its results comes to lie
where a call would not have put it: a body that reads it can tell the two apart. And where an append
fails its place is told, which is another one behind a tail call that is spelled out. -/
theorem tail_calls_are_no_calls :
    ((Proto.prying (.deferring #[.tailCall 0 (.fixed 0)])).Valid ∧
      (Proto.prying (.deferring #[.tailCall 0 (.fixed 0)])).ByValue ∧
      (Proto.prying (.deferring #[.tailCall 0 (.fixed 0)])).SpelledOut
        (.prying (.deferring #[.call 0 (.fixed 0) .open, .ret 0 .open])) ∧
      made (perform 9) (.prying (.deferring #[.tailCall 0 (.fixed 0)])) = .ok [.str "t"] ∧
      made (perform 9) (.prying (.deferring #[.call 0 (.fixed 0) .open, .ret 0 .open])) =
        .ok [.str "g"] ∧
      made (roomy 9) (.prying (.deferring #[.call 0 (.fixed 0) .open, .ret 0 .open])) =
        .ok [.str "g"]) ∧
    (Proto.failing 2 #[.tailCall 0 (.fixed 0)]).Valid ∧
    (Proto.failing 2 #[.tailCall 0 (.fixed 0)]).ByValue ∧
    (Proto.failing 2 #[.tailCall 0 (.fixed 0)]).SpelledOut
      (.failing 3 #[.call 0 (.fixed 0) .open, .ret 0 .open]) ∧
    made (perform 9) (.failing 2 #[.tailCall 0 (.fixed 0)]) =
      .error (some (.contract (.appendTarget "failing" 2))) ∧
    made (perform 9) (.failing 3 #[.call 0 (.fixed 0) .open, .ret 0 .open]) =
      .error (some (.contract (.appendTarget "failing" 3))) ∧
    made (roomy 9) (.failing 3 #[.call 0 (.fixed 0) .open, .ret 0 .open]) =
      .error (some (.contract (.appendTarget "failing" 3))) := by
  refine ⟨⟨Proto.prying_valid, Proto.prying_byValue, Proto.prying_spelledOut, ?_⟩,
    Proto.failing_valid, Proto.byValue_of_bare rfl nofun, Proto.failing_spelledOut, ?_⟩
  · decide +kernel
  · decide +kernel

end Machine

end ScriptCore
