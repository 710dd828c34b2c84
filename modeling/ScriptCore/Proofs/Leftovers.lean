import ScriptCore.Proofs.Registers

/-!
# Bodies that do not read leftovers

A call runs in the registers behind its function, so what it leaves there is nothing that a body
may rely on. `Proto.Exposed` are the registers that may hold such leftovers, and a body is tidy
(`Proto.Tidy`) if it reads none of them and takes a span of open length only right behind the
operation that made it. `Proto.Orderly` bodies are checked and tidy, and so are the bodies nested
in them. Of `Proto.Prompt` and `Proto.Valid` bodies only the latter is asked, that spans of open
length are taken where they are made.

Two activations of a tidy body that agree on the registers that are known (`Proto.Known`) agree
on all that the next operation reads (`known_of_reads`), and what is known behind an operation
was written by it or lies below the window of its call (`known_next`).
-/

namespace ScriptCore

namespace Op

/-- The operation takes the span of open length that starts at `base`. -/
def Takes (op : Op) (base : Nat) : Prop :=
  match op with
  | .call func .open _ | .tailCall func .open => base = func.toNat + 1
  | .append _ first .open _ | .ret first .open => base = first.toNat
  | _ => False

end Op

namespace Proto

variable {p : Proto} {pc top r : Nat} {op : Op}

/-! ## What a check tells -/

theorem demand_ok {ok : Bool} {defect : Defect} (h : p.demand pc ok defect = .ok ()) : ok := by
  unfold demand at h
  cases ok
  · cases h
  · rfl

theorem check_seq {x y : Except Rejection Unit} (h : (do x; y) = .ok ()) :
    x = .ok () ∧ y = .ok () := by
  cases x with
  | error e => cases h
  | ok u => exact ⟨rfl, h⟩

theorem checkReg_ok {r : Reg} (h : p.checkReg pc r = .ok ()) : r.toNat < p.slots :=
  of_decide_eq_true (demand_ok h)

theorem checkSpan_ok {base : Nat} {count : Count} (h : p.checkSpan pc base count = .ok ())
    (hr : count.Covers base top r) : r < p.slots ∨ count = .open ∧ base ≤ r ∧ r < top := by
  cases count with
  | fixed n =>
    have hn := of_decide_eq_true (demand_ok (check_seq h).1)
    exact .inl (Nat.lt_of_lt_of_le hr.2 hn)
  | «open» => exact .inr ⟨rfl, hr⟩

/-- A span of open length starts inside the frame or at its end. -/
theorem checkSpan_open {base : Nat} (h : p.checkSpan pc base .open = .ok ()) : base ≤ p.slots :=
  of_decide_eq_true (demand_ok h)

theorem checkSpanAfter_ok {r : Reg} {count : Count} (h : p.checkSpanAfter pc r count = .ok ()) :
    p.checkSpan pc (r.toNat + 1) count = .ok () := by
  unfold checkSpanAfter Reg.next? at h
  by_cases hr : r.toNat + 1 < twoPow 16
  · rw [if_pos hr] at h
    exact h
  · rw [if_neg hr] at h
    cases h

theorem checkCaptures_ok {ds : List UpvalueDesc} (h : p.checkCaptures pc ds = .ok ())
    {d : UpvalueDesc} (hd : d ∈ ds) {s : Reg} (hs : d.capture = .slot s) : s.toNat < p.slots := by
  induction ds with
  | nil => cases hd
  | cons e ds ih =>
    unfold checkCaptures at h
    rcases List.mem_cons.1 hd with rfl | hd
    · rw [hs] at h
      exact checkReg_ok (check_seq h).1
    · cases he : e.capture with
      | slot t =>
        rw [he] at h
        exact ih (check_seq (check_seq h).2).2 hd
      | upvalue i =>
        rw [he] at h
        exact ih (check_seq h).2 hd

theorem checkCode_ok {ops : List Op} {start i : Nat} (h : p.checkCode start ops = .ok ())
    (hop : ops[i]? = some op) : p.checkOp (start + i) op = .ok () := by
  induction ops generalizing start i with
  | nil => cases hop
  | cons o ops ih =>
    have ⟨hhead, htail⟩ := check_seq h
    cases i with
    | zero =>
      obtain rfl : o = op := Option.some.inj hop
      exact hhead
    | succ i =>
      have hrest := ih htail hop
      rw [Nat.add_right_comm, Nat.add_assoc] at hrest
      exact hrest

theorem check_eq (p : Proto) : p.check = (do p.checkSelf; checkAll p.children) := by
  cases p
  rw [check]

theorem checkSelf_of_check (h : p.check = .ok ()) : p.checkSelf = .ok () := by
  rw [check_eq] at h
  exact (check_seq h).1

theorem checkOp_of_check (h : p.check = .ok ()) (hop : p.code[pc]? = some op) :
    p.checkOp pc op = .ok () := by
  have hself := checkSelf_of_check h
  unfold checkSelf at hself
  by_cases hparams : p.slots < p.params
  · rw [if_pos hparams] at hself
    cases hself
  · rw [if_neg hparams] at hself
    have hcode := checkCode_ok (i := pc) hself (by rw [Array.getElem?_toList]; exact hop)
    rw [Nat.zero_add] at hcode
    exact hcode

theorem params_le_of_check (h : p.check = .ok ()) : p.params ≤ p.slots := by
  have hself := checkSelf_of_check h
  unfold checkSelf at hself
  by_cases hparams : p.slots < p.params
  · rw [if_pos hparams] at hself
    cases hself
  · exact Nat.le_of_not_lt hparams

/-- The frame of a checked body has the slots that it declares. -/
theorem layout_slots (h : p.check = .ok ()) : p.layout.slots = p.slots :=
  Nat.max_eq_left (params_le_of_check h)

/-- What a checked operation reads lies in its frame, but for a span of open length. -/
theorem reads_cases (hop : p.checkOp pc op = .ok ()) (h : op.Reads p top r) :
    r < p.slots ∨ ∃ base, op.Takes base ∧ base ≤ r ∧ r < top := by
  have hreg : ∀ {s : Reg}, r = s.toNat → p.checkReg pc s = .ok () → r < p.slots :=
    fun hr hs => hr ▸ checkReg_ok hs
  have hspan : ∀ {base : Nat} {count : Count}, (count = .open → op.Takes base) →
      p.checkSpan pc base count = .ok () → count.Covers base top r →
      r < p.slots ∨ ∃ base, op.Takes base ∧ base ≤ r ∧ r < top :=
    fun htakes hs hr => (checkSpan_ok hs hr).imp_right fun h => ⟨_, htakes h.1, h.2⟩
  unfold checkOp at hop
  cases op with
  | move dst src => exact .inl (hreg h (check_seq hop).2)
  | varInit var src => exact .inl (hreg h (check_seq (check_seq hop).2).1)
  | varStore var src =>
    rcases h with h | h
    · exact .inl (hreg h (check_seq hop).1)
    · exact .inl (hreg h (check_seq (check_seq hop).2).1)
  | setUpval idx src => exact .inl (hreg h (check_seq hop).1)
  | closure dst child =>
    obtain ⟨q, hq, d, hd, s, hs, rfl⟩ := h
    have hcaptures := (check_seq hop).2
    rw [hq] at hcaptures
    exact .inl (checkCaptures_ok hcaptures hd hs)
  | append table base count first =>
    rcases h with h | h
    · exact .inl (hreg h (check_seq hop).1)
    · exact hspan (fun hc => by subst hc; rfl) (check_seq hop).2 h
  | setGlobal name src => exact .inl (hreg h (check_seq hop).1)
  | index dst object key =>
    have hrest := check_seq (check_seq hop).2
    rcases h with h | h
    · exact .inl (hreg h hrest.1)
    · exact .inl (hreg h hrest.2)
  | newIndex object key value =>
    have hrest := check_seq (check_seq hop).2
    rcases h with h | h | h
    · exact .inl (hreg h (check_seq hop).1)
    · exact .inl (hreg h hrest.1)
    · exact .inl (hreg h hrest.2)
  | binary op dst lhs rhs =>
    have hrest := check_seq (check_seq hop).2
    rcases h with h | h
    · exact .inl (hreg h hrest.1)
    · exact .inl (hreg h hrest.2)
  | unary op dst src => exact .inl (hreg h (check_seq hop).2)
  | test cond when dest => exact .inl (hreg h (check_seq hop).1)
  | call func args results =>
    rcases h with h | h
    · exact .inl (hreg h (check_seq hop).1)
    · exact hspan (fun hc => by subst hc; rfl)
        (checkSpanAfter_ok (check_seq (check_seq hop).2).1) h
  | tailCall func args =>
    rcases h with h | h
    · exact .inl (hreg h (check_seq hop).1)
    · exact hspan (fun hc => by subst hc; rfl) (checkSpanAfter_ok (check_seq hop).2) h
  | ret base count => exact hspan (fun hc => by subst hc; rfl) hop h
  | nil | bool | const | getUpval | newTable | getGlobal | jump | vararg => exact h.elim

/-- A checked operation that makes a span of open length writes all of it that lies behind the
frame. -/
theorem writes_of_opens (hop : p.checkOp pc op = .ok ()) (hopens : op.Opens) (hr : p.slots ≤ r)
    (htop : r < top) : op.Writes top r := by
  unfold checkOp at hop
  cases op with
  | call func args results =>
    cases results with
    | fixed n => exact hopens.elim
    | «open» => exact ⟨Nat.le_trans (Nat.le_of_lt (checkReg_ok (check_seq hop).1)) hr, htop⟩
  | vararg dst count =>
    cases count with
    | fixed n => exact hopens.elim
    | «open» => exact ⟨Nat.le_trans (checkSpan_open (check_seq hop).2) hr, htop⟩
  | _ => exact hopens.elim

/-- The window of a checked operation's call starts inside the frame or at its end. -/
theorem windowAt_le (hop : p.checkOp pc op = .ok ()) : op.windowAt p.slots ≤ p.slots := by
  unfold checkOp at hop
  cases op with
  | call func args results => exact checkReg_ok (check_seq hop).1
  | _ => exact Nat.le_refl _

/-! ## Leftovers -/

/-- Control can get to the operation at `pc`. -/
inductive Reaches (p : Proto) : Nat → Prop
  | entry : Reaches p 0
  | step {pc next : Nat} {op : Op} (h : Reaches p pc) (hop : p.code[pc]? = some op)
    (hnext : op.Next pc next) : Reaches p next

/-- With `top` live slots before the operation at `pc`, the register `r` may hold leftovers of
a call. -/
inductive Exposed (p : Proto) : Nat → Nat → Nat → Prop
  /-- A call leaves everything behind its function that is no result. -/
  | left {pc top r : Nat} {func : Reg} {args results : Count} (hreach : p.Reaches pc)
    (hop : p.code[pc]? = some (.call func args results)) (hr : func.toNat < r)
    (hresult : ¬ results.Covers func.toNat top r) : Exposed p (pc + 1) top r
  /-- Leftovers remain until they are written over. -/
  | kept {pc next top top' r : Nat} {op : Op} (h : Exposed p pc top r)
    (hop : p.code[pc]? = some op) (hnext : op.Next pc next) (htop : op.Opens ∨ top' = top)
    (hwrites : ¬ op.Writes top' r) : Exposed p next top' r

/-- A body reads no leftovers and takes spans of open length right behind where they are made. -/
structure Tidy (p : Proto) : Prop where
  unread : ∀ {pc : Nat} {op : Op} {top r : Nat}, p.code[pc]? = some op → op.Reads p top r → ¬ p.Exposed pc top r
  fed : ∀ {pc base : Nat} {op : Op}, p.code[pc]? = some op → op.Takes base →
    ∃ q producer, pc = q + 1 ∧ p.code[q]? = some producer ∧ producer.Opens
  unjumped : ∀ {pc base : Nat} {op : Op}, p.code[pc]? = some op → op.Takes base →
    ∀ {q : Nat} {jump : Op}, p.code[q]? = some jump → ¬ jump.JumpsTo pc

/-- A body takes spans of open length right behind where they are made. -/
structure Prompt (p : Proto) : Prop where
  fed : ∀ {pc base : Nat} {op : Op}, p.code[pc]? = some op → op.Takes base →
    ∃ q producer, pc = q + 1 ∧ p.code[q]? = some producer ∧ producer.Opens
  unjumped : ∀ {pc base : Nat} {op : Op}, p.code[pc]? = some op → op.Takes base →
    ∀ {q : Nat} {jump : Op}, p.code[q]? = some jump → ¬ jump.JumpsTo pc

theorem Tidy.prompt (h : p.Tidy) : p.Prompt := ⟨h.fed, h.unjumped⟩

/-- Checked and prompt bodies with such bodies nested in them. -/
inductive Valid : Proto → Prop
  | intro {p : Proto} (check : p.check = .ok ()) (prompt : p.Prompt)
    (children : ∀ q ∈ p.children, Valid q) : Valid p

theorem Valid.check (h : p.Valid) : p.check = .ok () := by
  cases h
  assumption

theorem Valid.prompt (h : p.Valid) : p.Prompt := by
  cases h
  assumption

theorem Valid.children (h : p.Valid) : ∀ q ∈ p.children, q.Valid := by
  cases h
  assumption

/-- Checked and tidy bodies with such bodies nested in them. -/
inductive Orderly : Proto → Prop
  | intro {p : Proto} (check : p.check = .ok ()) (tidy : p.Tidy)
    (children : ∀ q ∈ p.children, Orderly q) : Orderly p

theorem Orderly.check (h : p.Orderly) : p.check = .ok () := by
  cases h
  assumption

theorem Orderly.tidy (h : p.Orderly) : p.Tidy := by
  cases h
  assumption

theorem Orderly.children (h : p.Orderly) : ∀ q ∈ p.children, q.Orderly := by
  cases h
  assumption

theorem Orderly.valid (h : p.Orderly) : p.Valid := by
  induction h with
  | intro check tidy _ ih => exact .intro check tidy.prompt ih

/-! ## What is known -/

/-- The register belongs to the span of open length that the operation before made. -/
def Fresh (p : Proto) (pc top r : Nat) : Prop :=
  (∃ q producer, pc = q + 1 ∧ p.code[q]? = some producer ∧ producer.Opens ∧
    producer.Writes top r) ∧ ∀ {q : Nat} {jump : Op}, p.code[q]? = some jump → ¬ jump.JumpsTo pc

/-- The register belongs to the frame or to the span that the operation before made. -/
def Held (p : Proto) (pc top r : Nat) : Prop := r < p.slots ∨ p.Fresh pc top r

/-- A fresh frame has its slots and no span. -/
theorem Held.lt_of_entry (h : p.Held 0 top r) : r < p.slots := by
  rcases h with h | ⟨⟨q, _, hq, _⟩, _⟩
  · exact h
  · cases hq

/-- What an operation of a prompt body reads is held. -/
theorem Prompt.held_of_reads (h : p.Prompt) (hcheck : p.check = .ok ())
    (hop : p.code[pc]? = some op) (hr : op.Reads p top r) : p.Held pc top r := by
  rcases Nat.lt_or_ge r p.slots with hin | hout
  · exact .inl hin
  rcases reads_cases (checkOp_of_check hcheck hop) hr with hin | ⟨base, htakes, hbase, htop⟩
  · exact .inl hin
  obtain ⟨q, producer, rfl, hq, hopens⟩ := h.fed hop htakes
  have hwrites := writes_of_opens (checkOp_of_check hcheck hq) hopens hout htop
  exact .inr ⟨⟨q, producer, rfl, hq, hopens, hwrites⟩, h.unjumped hop htakes⟩

/-- What is held right behind an operation belongs to the frame or was written by it. -/
theorem held_succ {top' : Nat} (hop : p.code[pc]? = some op) (hr : p.Held (pc + 1) top' r) :
    r < p.slots ∨ op.Writes top' r := by
  rcases hr with hin | ⟨⟨q, producer, hpc, hq, -, hwrites⟩, -⟩
  · exact .inl hin
  · obtain rfl : pc = q := Nat.succ.inj hpc
    obtain rfl : op = producer := Option.some.inj (hop.symm.trans hq)
    exact .inr hwrites

/-- What is held where control goes from an operation belongs to the frame or was written by it. -/
theorem held_next {next top' : Nat} (hop : p.code[pc]? = some op) (hnext : op.Next pc next)
    (hr : p.Held next top' r) : r < p.slots ∨ op.Writes top' r := by
  rcases op.next_cases hnext with rfl | hjump
  · exact held_succ hop hr
  · exact .inl (hr.resolve_right fun hfresh => hfresh.2 hop hjump)

/-- With `top` live slots before the operation at `pc`, the register `r` does not depend on where
the frame lies and on what ran before in its place. -/
structure Known (p : Proto) (pc top r : Nat) : Prop where
  unexposed : ¬ p.Exposed pc top r
  inside : r < p.slots ∨ p.Fresh pc top r

/-- A fresh frame is known inside. -/
theorem Known.lt_of_entry (h : p.Known 0 top r) : r < p.slots := Held.lt_of_entry h.inside

/-- What an operation of a tidy body reads is known. -/
theorem Orderly.known_of_reads (h : p.Orderly) (hop : p.code[pc]? = some op)
    (hr : op.Reads p top r) : p.Known pc top r :=
  ⟨h.tidy.unread hop hr, h.tidy.prompt.held_of_reads h.check hop hr⟩

/-- What is known behind an operation was written by it, or was known before and lies below the
window of its call. -/
theorem known_next {next top' : Nat} (hreach : p.Reaches pc)
    (hop : p.code[pc]? = some op) (hnext : op.Next pc next) (htop : op.Opens ∨ top' = top)
    (hr : p.Known next top' r) :
    p.Known pc top r ∧ r < op.windowAt p.slots ∨ op.Writes top' r := by
  by_cases hwrites : op.Writes top' r
  · exact .inr hwrites
  refine .inl ?_
  have hin : r < p.slots := (held_next hop hnext hr.inside).resolve_right hwrites
  have hunexposed : ¬ p.Exposed pc top r := fun hexposed =>
    hr.unexposed (.kept hexposed hop hnext htop hwrites)
  refine ⟨⟨hunexposed, .inl hin⟩, ?_⟩
  cases op with
  | call func args results =>
    obtain rfl : next = pc + 1 := hnext
    rcases Nat.lt_or_ge func.toNat r with hfunc | hfunc
    · exact (hr.unexposed (.left hreach hop hfunc hwrites)).elim
    · exact Nat.lt_succ_of_le hfunc
  | _ => exact hin

end Proto

end ScriptCore
