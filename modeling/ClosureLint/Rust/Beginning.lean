import ClosureLint.Rust.Ending

/-! How readings begin. A parser that only looks at tokens is still. No closure begins where a
reading of a quiet parser does, and behind a quiet reading that has a token anything may follow.
What attributes stand in front of begins with the closure they belong to, if they belong to one. -/

namespace ClosureLint.Rust.Parser

variable {α β σ : Type}

/-! ### Looking at tokens -/

/-- Nothing is read, and nothing found. -/
class Still (p : Parser α) : Prop where
  stays : ∀ {tokens pos stop r}, p.run tokens pos stop = .ok r → r.next = pos ∧ r.found = .none

instance (priority := low) Still.steady {p : Parser α} [h : p.Still] : p.Steady :=
  ⟨fun _ hr hpos => (h.stays hr).1 ▸ hpos⟩

instance (priority := low) Still.quiet {p : Parser α} [h : p.Still] : p.Quiet := by
  constructor
  intro tokens pos stop r hr c hc
  rw [(h.stays hr).2] at hc
  cases hc

instance still_pure (value : α) : (pure value : Parser α).Still := by
  constructor
  intro tokens pos stop r h
  cases h
  exact ⟨rfl, rfl⟩

instance still_look (f : Array Token → Nat → Nat → α) : (look f).Still := by
  constructor
  intro tokens pos stop r h
  cases h
  exact ⟨rfl, rfl⟩

instance still_ahead? (p : Parser α) : (ahead? p).Still := still_look _

instance Still.bind {p : Parser α} {f : α → Parser β} [hp : p.Still] [hf : ∀ a, (f a).Still] :
    (p >>= f).Still := by
  constructor
  intro tokens pos stop r h
  obtain ⟨a, b, ha, hb, rfl⟩ := run_bind h
  obtain ⟨hanext, hafound⟩ := hp.stays ha
  obtain ⟨hbnext, hbfound⟩ := (hf a.value).stays hb
  refine ⟨hbnext.trans hanext, ?_⟩
  rw [Reading.behind, hafound, hbfound]
  rfl

instance Still.ite {c : Prop} [Decidable c] {p q : Parser α} [hp : p.Still] [hq : q.Still] :
    (if c then p else q).Still := by
  split
  · exact hp
  · exact hq

/-! ### Tokens in front of closures -/

instance quiet_fail : (fail : Parser α).Quiet := ⟨nofun⟩

instance quiet_token (f : Lexeme → Option α) : (token f).Quiet := by
  constructor
  intro tokens pos stop r h c hc
  obtain ⟨token, value, -, -, rfl⟩ := run_token h
  cases hc

instance quiet_tree : tree.Quiet := by
  constructor
  intro tokens pos stop r h c hc
  obtain ⟨-, rfl⟩ := run_tree h
  cases hc

instance quiet_group (d : Delimiter) (p : Parser α) : (group d p).Quiet := by
  constructor
  intro tokens pos stop r h c hc
  obtain ⟨lo, hi, partner, s, -, -, hs, -, hall⟩ := run_group h
  exact ((p.sound hs).found.within c (hall ▸ hc)).1

theorem mem_behind {r : Reading α} {s : Reading β} {c : ClosureRange}
    (h : c ∈ (r.behind s).found.all) : c ∈ r.found.all ∨ c ∈ s.found.all := by
  simp only [Reading.behind, Findings.all, Findings.append, List.mem_append] at h ⊢
  grind

instance Quiet.bind {p : Parser α} {f : α → Parser β} [hp : p.Quiet] [hf : ∀ a, (f a).Quiet] :
    (p >>= f).Quiet := by
  constructor
  intro tokens pos stop r h c hc
  obtain ⟨a, b, ha, hb, rfl⟩ := run_bind h
  rcases mem_behind hc with hc | hc
  · exact hp.behind ha c hc
  · exact Nat.lt_of_le_of_lt (p.sound ha).pos_le ((hf a.value).behind hb c hc)

/-- Behind a token of its own, anything may follow. -/
instance Quiet.front {p : Parser α} {f : α → Parser β} [hp : p.Quiet] [hfirm : p.Firm] :
    (p >>= f).Quiet := by
  constructor
  intro tokens pos stop r h c hc
  obtain ⟨a, b, ha, hb, rfl⟩ := run_bind h
  rcases mem_behind hc with hc | hc
  · exact hp.behind ha c hc
  · exact Nat.lt_of_lt_of_le (hfirm.lt ha) (((f a.value).sound hb).found.within c hc).1

instance Quiet.discard {p : Parser α} [p.Quiet] : (discard p).Quiet :=
  inferInstanceAs (p >>= fun _ => pure ()).Quiet

instance Quiet.ite {c : Prop} [Decidable c] {p q : Parser α} [hp : p.Quiet] [hq : q.Quiet] :
    (if c then p else q).Quiet := by
  split
  · exact hp
  · exact hq

instance Quiet.loop {state : σ} {step : σ → Parser (σ ⊕ α)} [hstep : ∀ s, (step s).Quiet] :
    (loop state step).Quiet := by
  constructor
  intro tokens pos stop r h
  refine loop_induction (motive := fun _ pos r => ∀ c ∈ r.found.all, pos < c.start) ?_ ?_ h
  · intro state pos a value ha _ c hc
    exact (mem_behind hc).elim ((hstep state).behind ha c) nofun
  · intro state pos a next r ha _ ih c hc
    rcases mem_behind hc with hc | hc
    · exact (hstep state).behind ha c hc
    · exact Nat.lt_of_le_of_lt ((step state).sound ha).pos_le (ih c hc)

instance Quiet.many {item? : Parser Bool} [item?.Quiet] : (many item?).Quiet :=
  @Quiet.loop _ _ _ _ fun _ => inferInstanceAs (item? >>= fun _ => pure _).Quiet

/-! ### What is known of the values -/

/-- All values that are read have a property. -/
def Returns (p : Parser α) (P : α → Prop) : Prop :=
  ∀ tokens pos stop r, p.run tokens pos stop = .ok r → P r.value

section Returns

variable {P : α → Prop} {Q : β → Prop}

theorem returns_pure {value : α} (h : P value) : (pure value : Parser α).Returns P := by
  intro tokens pos stop r hr
  cases hr
  exact h

theorem Returns.bind {p : Parser α} {f : α → Parser β} (hf : ∀ a, (f a).Returns Q) :
    (p >>= f).Returns Q := by
  intro tokens pos stop r hr
  obtain ⟨a, b, -, hb, rfl⟩ := run_bind hr
  exact hf a.value _ _ _ b hb

theorem Returns.map {p : Parser α} {f : α → β} (hp : p.Returns P) (hf : ∀ a, P a → Q (f a)) :
    (do return f (← p) : Parser β).Returns Q := by
  intro tokens pos stop r hr
  obtain ⟨a, b, ha, hb, rfl⟩ := run_bind hr
  cases hb
  exact hf a.value (hp _ _ _ a ha)

theorem Returns.ite {c : Prop} [Decidable c] {p q : Parser α} (hp : p.Returns P)
    (hq : q.Returns P) : (if c then p else q).Returns P := by
  split
  · exact hp
  · exact hq

/-- A property of the states that every step keeps. -/
theorem Returns.loop {I : σ → Prop} {state : σ} {step : σ → Parser (σ ⊕ α)}
    (hstep : ∀ s, I s → (step s).Returns (Sum.elim I P)) (hstate : I state) :
    (loop state step).Returns P := by
  intro tokens pos stop r h
  refine loop_induction (motive := fun state _ r => I state → P r.value) ?_ ?_ h hstate
  · intro state pos a value ha hvalue hstate
    have hnext := hstep state hstate _ _ _ a ha
    rwa [hvalue] at hnext
  · intro state pos a next r ha hvalue ih hstate
    have hnext := hstep state hstate _ _ _ a ha
    rw [hvalue] at hnext
    exact ih hnext

end Returns

/-! ### What attributes belong to -/

section Owners

variable {owner : α → Owner} {owner' : β → Owner}

theorem Leads.of_returns {p : Parser α} (h : p.Returns fun a => owner a ≠ .closure) :
    p.Leads owner :=
  ⟨fun hr howner => absurd howner (h _ _ _ _ hr)⟩

instance leads_ofUnread {p : Parser Bool} : p.Leads .ofUnread :=
  .of_returns fun _ _ _ r _ => Owner.ofUnread_ne r.value

instance leads_closure (head : Parser β) (body : β → Parser α) [head.Firm] [head.Quiet]
    [∀ value, (body value).Firm] : (closure head body).Leads owner := by
  constructor
  intro tokens pos stop r h _
  obtain ⟨a, b, c, -, -, hstart, rfl⟩ := run_closure h
  exact ⟨c, _, rfl, hstart⟩

theorem Leads.look {p : Parser α} {f : α → Parser β} [hp : p.Still]
    (hf : ∀ a, (f a).Leads owner') : (p >>= f).Leads owner' := by
  constructor
  intro tokens pos stop r h howner
  obtain ⟨a, b, ha, hb, rfl⟩ := run_bind h
  obtain ⟨hnext, hfound⟩ := hp.stays ha
  obtain ⟨c, rest, hplain, hstart⟩ := (hf a.value).first hb howner
  exact ⟨c, rest, by rw [Reading.behind, hfound]; exact hplain, hstart.trans hnext⟩

/-- Behind a closure, it stays the first one. -/
theorem Leads.bind {p : Parser α} {f : α → Parser β} (hp : p.Leads owner)
    (hf : ∀ a, (f a).Returns fun b => owner' b = .closure → owner a = .closure) :
    (p >>= f).Leads owner' := by
  constructor
  intro tokens pos stop r h howner
  obtain ⟨a, b, ha, hb, rfl⟩ := run_bind h
  obtain ⟨c, rest, hplain, hstart⟩ := hp.first ha (hf a.value _ _ _ b hb howner)
  refine ⟨c, rest ++ b.found.plain, ?_, hstart⟩
  rw [Reading.behind, Findings.append, hplain]
  rfl

theorem Leads.ite {c : Prop} [Decidable c] {p q : Parser α} (hp : p.Leads owner)
    (hq : q.Leads owner) : (if c then p else q).Leads owner := by
  split
  · exact hp
  · exact hq

instance Leads.delay {p : Unit → Parser α} [hp : (p ()).Leads owner] :
    (delay p).Leads owner :=
  ⟨fun h => hp.first h⟩

/-- With its attributes, a closure begins where they do. -/
instance Leads.attributed {attributes : Parser Unit} {p : Parser α} [attributes.Quiet]
    [hp : p.Leads owner] : (attributed attributes p owner).Leads owner := by
  constructor
  intro tokens pos stop r h howner
  obtain ⟨a, b, ha, hb, hvalue, -, hfound⟩ := run_attributed h
  rw [hvalue] at howner
  obtain ⟨c, rest, hplain, hstart⟩ := hp.first hb howner
  refine ⟨c.startingAt pos, a.found.all ++ rest, ?_, ?_⟩
  · rw [hfound howner, attributedFindings, hplain]
    rfl
  · exact ClosureRange.startingAt_start (hstart ▸ (attributes.sound ha).pos_le)

end Owners

end ClosureLint.Rust.Parser
