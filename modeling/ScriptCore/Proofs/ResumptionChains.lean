import ScriptCore.Proofs.CoroutineOrder
import ScriptCore.Proofs.Replays

/-!
# Resumption chains

The chain that a yield leaves at the resume of its coroutine has one link for every function in
progress there, in order, and no native function is among them (`segment_suspends`). That the
chains of all suspended coroutines fit their functions is kept by every run (`ChainsFit`), so a
later resume re-enters each link with its own frame, outermost first, and goes on with them
innermost first, in the two phases of a replay. `resumption_chains` puts these together.
-/

namespace ScriptCore

open Machine

variable {F S : Type}

/-! ## Chains that fit -/

/-- The chains of suspended coroutines can be replayed, and neither they nor the calls in
progress go beyond the limit of the depth. -/
structure ChainsFit (m : Machine F S) : Prop where
  depth : m.thread.depth ≤ m.world.config.maxCallDepth
  fits : ∀ co chain, m.heap.coroutine co = .suspended chain → ∀ link ∈ chain, m.Fits link
  length : ∀ co chain, m.heap.coroutine co = .suspended chain →
    chain.length ≤ m.world.config.maxCallDepth

/-- The functions in progress, outermost first. -/
def calls : List Activity → List FnId
  | [] => []
  | .call f :: acts => calls acts ++ [f]
  | .resume _ :: acts | .boundary :: acts => calls acts

/-- Neither a resume nor a non-resumable call is in progress. -/
def Resumable (acts : List Activity) : Prop := ∀ a ∈ acts, ∃ f, a = .call f

namespace ChainsFit

variable {m m' : Machine F S}

/-- Steps that change no coroutine. -/
theorem congr (h : ChainsFit m) (hcoroutines : m'.heap.coroutines = m.heap.coroutines)
    (hfunctions : ∀ f : FnId, f.index < m.heap.functions.size →
      (m.heap.function f).Kept (m'.heap.function f))
    (hconfig : m'.world.config = m.world.config)
    (hdepth : m'.thread.depth ≤ m.world.config.maxCallDepth) : ChainsFit m' := by
  have heq : ∀ co, m'.heap.coroutine co = m.heap.coroutine co := fun co => by
    rw [Heap.coroutine, hcoroutines]; rfl
  refine ⟨hconfig ▸ hdepth, fun co chain hco link hlink => ?_, fun co chain hco => ?_⟩
  · rw [heq] at hco
    exact (h.fits co chain hco link hlink).mono hfunctions
  · rw [heq] at hco
    rw [hconfig]
    exact h.length co chain hco

/-- Changes of coroutines that bring in no other chain. -/
theorem subset (h : ChainsFit m) (hfunctions : m'.heap.functions = m.heap.functions)
    (hconfig : m'.world.config = m.world.config) (hdepth : m'.thread.depth = m.thread.depth)
    (hsub : ∀ co chain, m'.heap.coroutine co = .suspended chain →
      (∃ co, m.heap.coroutine co = .suspended chain) ∨
        (∀ link ∈ chain, m.Fits link) ∧ chain.length ≤ m.world.config.maxCallDepth) :
    ChainsFit m' := by
  have hfits : ∀ link, m.Fits link → m'.Fits link := fun link hlink => by
    unfold Fits Heap.function at hlink ⊢
    rw [hfunctions]
    exact hlink
  refine ⟨by rw [hdepth, hconfig]; exact h.depth, fun co chain hco link hlink => ?_,
    fun co chain hco => ?_⟩
  · obtain ⟨co', hco'⟩ | ⟨hchain, -⟩ := hsub co chain hco
    · exact hfits link (h.fits co' chain hco' link hlink)
    · exact hfits link (hchain link hlink)
  · rw [hconfig]
    obtain ⟨co', hco'⟩ | ⟨-, hlength⟩ := hsub co chain hco
    · exact h.length co' chain hco'
    · exact hlength

theorem turnedTo (h : ChainsFit m) (co : CoId) : ChainsFit (m.turnedTo co) := by
  refine h.subset rfl rfl rfl fun x chain hx => .inl ⟨x, ?_⟩
  rw [coroutine_turnedTo] at hx
  split at hx
  · cases hx
  · split at hx
    · cases hx
    · exact hx

theorem turnedBack (h : ChainsFit m) (outer : Option CoId) (boundaries : Nat) (co : CoId)
    {c : Coroutine} (hc : ∀ chain, c = .suspended chain →
      (∀ link ∈ chain, m.Fits link) ∧ chain.length ≤ m.world.config.maxCallDepth) :
    ChainsFit (m.turnedBack outer boundaries co c) := by
  refine h.subset rfl rfl rfl fun x chain hx => ?_
  rw [coroutine_turnedBack] at hx
  split at hx
  · exact .inr (hc chain hx)
  · split at hx
    · cases hx
    · exact .inl ⟨x, hx⟩

theorem returnedTo (h : ChainsFit m) (outer : Option CoId) (boundaries : Nat) :
    ChainsFit (m.returnedTo outer boundaries) := by
  refine h.subset rfl rfl rfl fun x chain hx => .inl ⟨x, ?_⟩
  rw [show (m.returnedTo outer boundaries).heap.coroutine x =
    (turn m.heap.coroutines outer .running).getD x.index .dead from rfl, getD_turn] at hx
  split at hx
  · cases hx
  · exact hx

theorem withCoroutine (h : ChainsFit m) (body : Val) : ChainsFit (m.withCoroutine body) := by
  refine h.subset rfl rfl rfl fun x chain hx => .inl ⟨x, ?_⟩
  rw [coroutine_withCoroutine] at hx
  split at hx
  · cases hx
  · exact hx

/-- A machine that has not run has chains that fit, if none of its coroutines was entered. -/
theorem start {heap : Heap F} (config : Config) (trace : Option (Array TraceEvent)) (host : S)
    (h : ∀ co chain, heap.coroutine co ≠ .suspended chain) :
    ChainsFit (Machine.start heap config trace host) :=
  ⟨Nat.zero_le _, fun co chain hco => (h co chain hco).elim,
    fun co chain hco => (h co chain hco).elim⟩

end ChainsFit

/-! ## What a suspension crosses -/

/-- Watches that chains fit, and that a yield that is to leave a given chain is made when just the
functions of that chain are in progress. -/
def Watch.chains (crossed : Option (List FnId)) (alarm : M F S Unit) : Watch F S where
  within _ m := ChainsFit m
  yields acts := Resumable acts → ∀ functions ∈ crossed, calls acts = functions
  alarm := alarm

/-- A machine whose chains fit, with the calls in progress counted above some others. -/
structure Counted (above : Nat) (acts : List Activity) (m : Machine F S) : Prop where
  chains : ChainsFit m
  depth : (calls acts).length + above = m.thread.depth

/-- What a suspension has left fits, and together with the calls that are still in progress it is
not beyond the limit of the depth. -/
structure LeavesFit (above : Nat) (acts : List Activity) (s : Suspension) (m : Machine F S) :
    Prop where
  fits : ∀ link ∈ s.chain, m.Fits link
  length : s.chain.length + ((calls acts).length + above) ≤ m.world.config.maxCallDepth

theorem Counted.congr {above : Nat} {acts acts' : List Activity} {m m' : Machine F S}
    (h : Counted above acts m) (hacts : calls acts' = calls acts) (hq : m.Undisturbed m') :
    Counted above acts' m' where
  chains := h.chains.congr hq.coroutines hq.functions hq.config (hq.depth ▸ h.chains.depth)
  depth := by rw [hacts, hq.depth]; exact h.depth

/-- **Chains are kept.** A frame that a suspension leaves adds one link, its own. -/
def Regime.chains (above : Nat) (crossed : Option (List FnId)) (alarm : M F S Unit) :
    Regime (Watch.chains crossed alarm) where
  inv := Counted above
  lost := LeavesFit above
  permits acts s := Resumable acts → ∀ functions ∈ crossed,
    calls acts ++ s.chain.map Link.function = functions
  within h := h.chains
  quiet h hq := h.congr rfl hq
  lost_quiet h hq := ⟨fun link hlink => (h.fits link hlink).mono hq.functions,
    hq.config ▸ h.length⟩
  host _ h := { h with chains := { h.chains with } }
  enter := by
    intro acts m f h hdepth
    refine ⟨h.chains.congr rfl (fun _ _ => .same _) rfl hdepth, ?_⟩
    show (calls acts ++ [f]).length + above = m.thread.depth + 1
    have := h.depth
    rw [List.length_append, List.length_singleton]
    omega
  leave := by
    intro acts m f h
    have hlength : (calls acts ++ [f]).length + above = m.thread.depth := h.depth
    rw [List.length_append, List.length_singleton] at hlength
    have hdepth : (Machine.leave m).thread.depth = m.thread.depth - 1 := rfl
    have hlimit := h.chains.depth
    exact ⟨h.chains.congr rfl (fun _ _ => .same _) rfl (by omega), by omega⟩
  lost_leave h := { h with }
  enterBoundary h := { h with chains := { h.chains with } }
  leaveBoundary h := { h with chains := { h.chains with } }
  yield := by
    intro acts m values h _ _
    refine ⟨nofun, ?_⟩
    have hlimit := h.chains.depth
    have hdepth := h.depth
    show 0 + _ ≤ _
    omega
  yieldNative := by
    intro acts m f values h _ _
    refine ⟨nofun, ?_⟩
    have hlimit := h.chains.depth
    have hdepth : (calls acts ++ [f]).length + above = m.thread.depth := h.depth
    rw [List.length_append] at hdepth
    show 0 + _ ≤ _
    omega
  permits_yield h hacts functions hfunctions := by
    rw [← h hacts functions hfunctions]
    exact (List.append_nil _).symm
  link := by
    intro acts s m f index saved h hleaves
    refine ⟨fun link hlink => ?_, ?_⟩
    · obtain rfl | hlink := List.mem_cons.1 hlink
      · exact hleaves
      · exact h.fits link hlink
    · have hlength : s.chain.length + ((calls acts ++ [f]).length + above) ≤ _ := h.length
      rw [List.length_append, List.length_singleton] at hlength
      show s.chain.length + 1 + _ ≤ _
      omega
  permits_boundary hacts := by
    obtain ⟨f, hf⟩ := hacts .boundary List.mem_cons_self
    cases hf
  permits_link := by
    intro acts values chain link h hacts functions hfunctions
    have hacts : Resumable acts := fun a ha => hacts a (List.mem_cons_of_mem _ ha)
    rw [← h hacts functions hfunctions]
    show (calls acts ++ [link.function]) ++ _ = _
    rw [List.append_assoc]
    rfl
  create body h := ⟨h.chains.withCoroutine body, h.depth⟩
  resume h _ := ⟨h.chains.turnedTo _, h.depth⟩
  permits_resume := by
    intro acts co s hacts
    obtain ⟨f, hf⟩ := hacts (.resume co) List.mem_cons_self
    cases hf
  returned _ h' := ⟨h'.chains.turnedBack _ _ _ nofun, h'.depth⟩
  yielded := by
    intro acts m m' co s _ h' hlost
    refine ⟨h'.chains.turnedBack _ _ _ fun chain hchain => ?_, h'.depth⟩
    obtain rfl : s.chain = chain := by cases hchain; rfl
    exact ⟨hlost.fits, by have := hlost.length; omega⟩

/-- The regime of chains for what runs from a machine on, with its calls counted. -/
theorem Counted.start {m : Machine F S} (h : ChainsFit m) : Counted m.thread.depth [] m :=
  ⟨h, Nat.zero_add _⟩

section Run

variable [HostBody F S] [QuietHost F S]

/-- **Chains of yields.** Where a yield reaches the resume of its coroutine, the chain has the
functions that were in progress at the yield, in order, and each has left a frame of its own. -/
theorem segment_suspends {n : Nat} {window : View} {args : List Val} {c : Coroutine}
    {m u : Machine F S} {s : Suspension} (hm : ChainsFit m)
    (h : segment (perform n) window args c m = .error (.suspend s) u) :
    (∀ alarm, segment ((Watch.chains (some (s.chain.map Link.function)) alarm).perform n [])
      window args c m = .error (.suspend s) u) ∧
    (∀ link ∈ s.chain, u.Fits link) ∧
    s.chain.length + m.thread.depth ≤ m.world.config.maxCallDepth := by
  have hrun := fun alarm =>
    let G := Regime.chains m.thread.depth (some (s.chain.map Link.function)) alarm
    G.segment_agrees (G.perform_agrees (fun _ _ _ _ => trivial) n []) window args c m (.start hm)
  -- No call was in progress when the segment began, so the functions are those of the chain alone.
  have hpermits : Resumable [] → ∀ functions ∈ some (s.chain.map Link.function),
      calls [] ++ s.chain.map Link.function = functions := by
    rintro - functions ⟨⟩
    rfl
  rw [h] at hrun
  obtain ⟨-, ⟨-, hlost⟩, hsince⟩ := hrun (pure ())
  refine ⟨fun alarm => (hrun alarm).1 hpermits, hlost.fits, ?_⟩
  have hlength := hlost.length
  rw [hsince.config] at hlength
  show s.chain.length + m.thread.depth ≤ _
  have hcalls : (calls []).length = 0 := rfl
  omega

/-- A segment leaves the limits as they are. -/
theorem segment_config {n : Nat} {window : View} {args : List Val} {c : Coroutine}
    {m u : Machine F S} {s : Suspension} (hm : ChainsFit m)
    (h : segment (perform n) window args c m = .error (.suspend s) u) :
    u.world.config = m.world.config := by
  let G : Regime (Watch.chains none (pure () : M F S Unit)) :=
    Regime.chains m.thread.depth none (pure ())
  have hrun := G.segment_agrees (G.perform_agrees (fun _ _ _ _ => trivial) n []) window args c m (.start hm)
  rw [h] at hrun
  obtain ⟨-, -, hsince⟩ := hrun
  exact hsince.config

omit [QuietHost F S] in
/-- A resume runs the segment of its coroutine on a machine whose chains fit as well. -/
theorem resume_fits (n : Nat) (window : View) (args : List Val) {co : CoId} {m : Machine F S}
    (hm : ChainsFit m) (hco : (m.heap.coroutine co).status = .suspended) : ∃ m₁, ChainsFit m₁ ∧
      m₁.heap.functions = m.heap.functions ∧
      resume (perform n) window co args m =
        (attempt (segment (perform n) window args (m.heap.coroutine co)) >>=
          handBack m.thread.current m.thread.boundaries co) m₁ := by
  obtain ⟨t, ht⟩ := resume_eq args hco
  exact ⟨{ m.turnedTo co with trace := t }, { hm.turnedTo co with }, rfl, ht (perform n) window⟩

end Run

/-- **Resumption chains.** Whatever a run carries out from a machine whose chains fit, they fit at
every function that it enters or leaves, as no alarm is ever raised, and in the end. A resume runs
a segment of its coroutine on such a machine. If that suspends, the chain has one link for each
function in progress at the yield, in order, every one of a body or a protected call, and there
are not more of them than calls are allowed. The segment of a suspended coroutine first re-enters
the links of its chain from the outermost on, each with its own frame, then gives the values of
the resume to the pending operation, and then goes on with the links from the innermost on. If it
is suspended again, the links that had not gone on are in the new chain as they were. -/
theorem resumption_chains (n : Nat) :
    (∀ request (m : Machine Empty PUnit), ChainsFit m →
      (∀ alarm, (Watch.chains none alarm).perform n [] request m = perform n request m) ∧
      ∀ u, EndsIn (perform n request m) u → ChainsFit u) ∧
    (∀ window co args (m : Machine Empty PUnit), ChainsFit m →
      (m.heap.coroutine co).status = .suspended → ∃ m₁, ChainsFit m₁ ∧
        m₁.heap.functions = m.heap.functions ∧
        resume (perform n) window co args m =
          (attempt (segment (perform n) window args (m.heap.coroutine co)) >>=
            handBack m.thread.current m.thread.boundaries co) m₁) ∧
    (∀ window args c s (m u : Machine Empty PUnit), ChainsFit m →
      segment (perform n) window args c m = .error (.suspend s) u →
        (∀ alarm, segment ((Watch.chains (some (s.chain.map Link.function)) alarm).perform n [])
          window args c m = .error (.suspend s) u) ∧
        (∀ link ∈ s.chain, u.Fits link) ∧
        s.chain.length + m.thread.depth ≤ m.world.config.maxCallDepth) ∧
    ∀ window args chain (m : Machine Empty PUnit), (∀ link ∈ chain, m.Fits link) →
      ∃ opened ending u, descend n chain args window m = .ok (opened, ending) u ∧
        Descended chain args window.base m opened ending u ∧
        segment (perform n) window args (.suspended chain) m = ascend opened ending u ∧
        ∀ s v, ascend opened ending u = .error (.suspend s) v → LeftAgain opened ending u s := by
  refine ⟨fun request m hm => ?_, ?_, ?_, fun window args chain m hfit => ?_⟩
  · have h := fun alarm => (Regime.chains m.thread.depth none alarm).perform_agrees
      (fun _ _ _ _ => trivial) n [] request m
      (.start hm)
    exact ⟨fun alarm => (h alarm).eq fun _ _ => nofun,
      fun u hu => (Regime.inv_of_meets _ (h (pure ())) hu).chains⟩
  · exact fun window co args m hm hco => resume_fits n window args hm hco
  · exact fun window args c s m u hm h => segment_suspends hm h
  · obtain ⟨opened, ending, u, hdescend, hdescended⟩ := descend_spec n args window hfit
    refine ⟨opened, ending, u, hdescend, hdescended, ?_, fun s v h =>
      ascend_suspends hfit hdescend h⟩
    show perform n (.replay chain args window) m = _
    rw [perform_replay]
    exact bind_of_ok hdescend

end ScriptCore
