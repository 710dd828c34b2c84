import ScriptCore.Proofs.AlignedBodies

/-!
# Aligned natives

Native functions on shared arguments. Those that call nothing run in step. The others pass windows
at equal offsets on, so what they ask for is served alike; a protected call leaves the same link on
both sides (`protectedCall_concur`), and a resume turns both machines to the coroutine and back in
the same way (`resume_concur`).
-/

namespace ScriptCore

open Machine

variable {v : Overlap} {d n : Nat} {heard : Prop} {a b : Machine Empty PUnit} {w w' : View}

/-! ## Attempts -/

/-- What follows an attempt, by the way in which it ended. -/
theorem Concur.attempt {E : Unwind → Machine Empty PUnit → Machine Empty PUnit → Prop}
    {α β γ δ : Type} {Q : α → β → Machine Empty PUnit → Machine Empty PUnit → Prop}
    {W : γ → δ → Machine Empty PUnit → Machine Empty PUnit → Prop} {x : M Empty PUnit α}
    {y : M Empty PUnit β} {k : Except Unwind α → M Empty PUnit γ}
    {l : Except Unwind β → M Empty PUnit δ} (h : Concur E Q (x a) (y b))
    (hok : ∀ u u' a b, Q u u' a b → Concur E W (k (.ok u) a) (l (.ok u') b))
    (herror : ∀ e a b, E e a b → Concur E W (k (.error e) a) (l (.error e) b)) :
    Concur E W ((attempt x >>= k) a) ((attempt y >>= l) b) := by
  rw [attempt_ended, attempt_ended]
  cases hx : x a <;> cases hy : y b <;> rw [hx, hy] at h
  · exact hok _ _ _ _ h
  · exact h.elim
  · exact h.elim
  · exact h.1 ▸ herror _ _ _ h.2

/-! ## Calls that may not yield -/

namespace Aligned

theorem bounded (h : Aligned v heard a b) : Aligned v heard (bounded a) (bounded b) :=
  { h with
    boundaries := congrArg (· + 1) h.boundaries
    chains := { h.chains with } }

theorem leaveBoundary (h : Aligned v heard a b) :
    Aligned v heard (leaveBoundary a) (leaveBoundary b) :=
  { h with
    boundaries := congrArg (· - 1) h.boundaries
    chains := { h.chains with } }

end Aligned

section Calls

variable {P : Perform Empty PUnit} (hserved : Served P)

include hserved

/-- A call that may not yield. -/
theorem callNonresumable_concur (h : Aligned v heard a b) (hw : v.Hands d n w w')
    (target : Val) (name : String) :
    Concur (Astray v) (fun _ _ => Aligned v True) (callNonresumable P w target name a)
      (callNonresumable P w' target name b) := by
  have hends := hserved h.bounded (.call hw target)
  rw [callNonresumable_eq, callNonresumable_eq]
  cases hx : P (.call w target) (Machine.bounded a) <;>
    cases hy : P (.call w' target) (Machine.bounded b) <;> rw [hx, hy] at hends
  case ok.ok => exact hends.leaveBoundary
  case ok.error => exact hends.elim
  case error.ok => exact hends.elim
  case error.error e _ _ _ =>
    obtain ⟨rfl, hastray⟩ := hends
    cases e with
    | suspend | fault | overflow | exhausted => exact ⟨rfl, hastray.leaveBoundary⟩

/-- A call that may not yield of a handler, on what was loaded into its window. -/
theorem callHandler_concur {values : List Val}
    (hw : (v.adding d (· < values.length)).Hands d values.length w w')
    (h : Aligned (v.adding d (· < values.length)) heard a b) (handler : Val) (name : String) :
    Concur (Astray v) (fun _ _ => Aligned v True) (callNonresumable P w handler name a)
      (callNonresumable P w' handler name b) :=
  (callNonresumable_concur hserved h hw handler name).mono (fun _ _ _ h => h.without)
    fun _ _ _ _ h => h.without

/-- The text of a value. -/
theorem display_concur (h : Aligned v heard a b) (hw : v.Based d w w') (x : Val) :
    Concur (Astray v) (fun s t a b => s = t ∧ Aligned v False a b) (Base.display P w x a)
      (Base.display P w' x b) := by
  have hclosed := Aligned.closed v heard
  unfold Base.display
  refine h.seq (metamethod_inStep hclosed x .toString) fun h? a b h => ?_
  cases h? with
  | some handler =>
    refine h.load hw [x] fun w w' a b _ hw h => ?_
    refine (callHandler_concur hserved hw h handler "__tostring").bind fun _ _ a b h => ?_
    refine h.seq (result_inStep (Aligned.hears v) 0) fun text a b h => ?_
    cases text with
    | str s => exact ⟨rfl, h.astray⟩
    | _ => exact ⟨rfl, h.astray⟩
  | none => exact h.last (named_inStep hclosed x) False.elim

/-- The texts of values. -/
theorem line_concur (h : Aligned v heard a b) (hw : v.Based d w w') (values : List Val) :
    Concur (Astray v) (fun s t a b => s = t ∧ Aligned v False a b) (Base.line P w values a)
      (Base.line P w' values b) := by
  induction values generalizing heard a b with
  | nil => exact ⟨rfl, h.astray⟩
  | cons x values ih =>
    unfold Base.line
    refine (display_concur hserved h hw x).bind fun text _ a b htext => ?_
    obtain ⟨rfl, h⟩ := htext
    refine (ih h).bind fun texts _ a b htexts => ?_
    obtain ⟨rfl, h⟩ := htexts
    exact ⟨rfl, h⟩

/-! ## Protected calls -/

/-- The value that a message handler makes of the value of a fault. -/
theorem handled_concur (h : Aligned v heard a b) (hw : v.Based d w w') (handler x : Val) :
    Concur (Astray v) (fun s t a b => s = t ∧ Aligned v False a b) (Base.handled P w handler x a)
      (Base.handled P w' handler x b) := by
  unfold Base.handled
  refine h.load hw [x] fun w w' a b _ hw h => ?_
  refine (callHandler_concur hserved hw h handler "xpcall handler").attempt (fun _ _ a b h => ?_)
    fun e a b h => ?_
  · exact h.last (result_inStep (Aligned.hears v) 0) False.elim
  · cases e with
    | fault f =>
      dsimp only
      split
      · exact ⟨rfl, h⟩
      · exact ⟨rfl, h⟩
    | suspend | overflow | exhausted => exact ⟨rfl, h⟩

/-- What is made of the ending of a protected callee. -/
theorem settle_concur (function : FnId) (p : Protection) (hw : v.Based d w w') (handler : Val)
    (ending : Except Unwind Unit) (h : Aligned v (ending = .ok ()) a b) :
    Concur (Astray v) (fun _ _ => Aligned v True) (Base.settle P function p w handler ending a)
      (Base.settle P function p w' handler ending b) := by
  have hclosed := Aligned.closed v False
  cases ending with
  | ok =>
    exact (h.mono fun _ => rfl).answers
      (prependResult_answers (Aligned.closed v True) (Aligned.hears v) (.bool true))
  | error e =>
    replace h := h.astray
    cases e with
    | suspend s =>
      obtain ⟨t, ht⟩ := suspendWith_ok function 1 ⟨[], 0, [handler]⟩ s a
      obtain ⟨t', ht'⟩ := suspendWith_ok function 1 ⟨[], 0, [handler]⟩ s b
      unfold Base.settle
      dsimp only
      rw [ht, ht']
      exact ⟨rfl, h.setTrace t t'⟩
    | fault f =>
      unfold Base.settle
      dsimp only
      split
      · refine h.after (get_inStep hclosed) fun m m' a b hget => ?_
        refine hget.2.seq (record_inStep hclosed _ _) fun _ a b h => ?_
        cases p with
        | plain => exact h.answers (giveAll_answers hclosed _)
        | handler =>
          refine (handled_concur hserved h hw handler f.value).bind fun x _ a b hx => ?_
          obtain ⟨rfl, h⟩ := hx
          exact h.answers (giveAll_answers hclosed _)
      · exact ⟨rfl, h⟩
    | overflow | exhausted => exact ⟨rfl, h⟩

/-- A request under protection, and what is made of its ending. -/
theorem guarded_concur (function : FnId) (p : Protection) (hw : v.Based d w w') (handler : Val)
    (h : Aligned v heard a b) {request request' : Request} (hasks : v.Asks a request request') :
    Concur (Astray v) (fun _ _ => Aligned v True)
      ((attempt (P request) >>= Base.settle P function p w handler) a)
      ((attempt (P request') >>= Base.settle P function p w' handler) b) :=
  (hserved h hasks).attempt
    (fun _ _ _ _ h => settle_concur hserved function p hw handler (.ok ()) (h.mono fun _ => trivial))
    fun e _ _ h => settle_concur hserved function p hw handler (.error e) (h.mono nofun)

/-- **Protected calls.** A protected call of shared arguments. -/
theorem protectedCall_concur (function : FnId) (p : Protection) (h : Aligned v heard a b)
    (hw : v.Hands d n w w') :
    Concur (Astray v) (fun _ _ => Aligned v True) (Base.protectedCall P function p w a)
      (Base.protectedCall P function p w' b) := by
  have hclosed := Aligned.closed v heard
  have hshares : Shares (Aligned v heard) w w' := Aligned.shares hw
  have hcall : ∀ (handler target : Val) (first : Nat) {a b : Machine Empty PUnit},
      Aligned v heard a b → Concur (Astray v) (fun _ _ => Aligned v True)
        ((attempt (P (.call (w.child first) target)) >>=
          Base.settle P function p (w.child first) handler) a)
        ((attempt (P (.call (w'.child first) target)) >>=
          Base.settle P function p (w'.child first) handler) b) := by
    intro handler target first a b h
    exact guarded_concur hserved function p (hw.child first).based handler h
      (.call (hw.child first) target)
  unfold Base.protectedCall
  refine h.seq (Args.checkAny_inStep hclosed hshares 1 p.name) fun target a b h => ?_
  cases p with
  | plain => exact hcall .nil target 1 h
  | handler =>
    exact h.seq (Args.checkAny_inStep hclosed hshares 2 Protection.handler.name)
      fun handler a b h => hcall handler target 2 h

/-- A protected call that goes on behind its callee. -/
theorem resumeProtected_concur (function : FnId) (p : Protection) (h : Aligned v heard a b)
    (hw : v.Based d w w') (index : Nat) (saved : Saved) {inner : List Link}
    (hinner : ∀ link ∈ inner, a.Fits link) (values : List Val) :
    Concur (Astray v) (fun _ _ => Aligned v True)
      (Base.resumeProtected P function p w index saved inner values a)
      (Base.resumeProtected P function p w' index saved inner values b) := by
  unfold Base.resumeProtected
  split
  · exact ⟨rfl, h.astray⟩
  · exact guarded_concur hserved function p hw _ h (.replay hw hinner values)

end Calls

end ScriptCore
