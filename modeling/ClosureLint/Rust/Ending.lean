import ClosureLint.Rust.Parser

/-! How readings end. A parser is firm if each of its readings has a last token, which is no
documentation, and steady if readings only end with documentation where they are empty and stand
behind it. Documentation stands for attributes, so it is steadiness that lets parsers be put
together: what is firm stays so with something steady behind it, or with anything in front of it. -/

namespace ClosureLint.Rust.Parser

variable {α β σ : Type}

/-- Behind a token other than documentation, every reading ends with such a token as well. -/
class Steady (p : Parser α) : Prop where
  ends : ∀ {tokens pos stop r}, Matched tokens → p.run tokens pos stop = .ok r →
    FirmAt tokens pos → FirmAt tokens r.next

instance (priority := low) Firm.steady {p : Parser α} [h : p.Firm] : p.Steady :=
  ⟨fun hm hr _ => h.ends hm hr⟩

section Runs

/-! ### What readings are made of -/

variable {tokens : Array Token} {pos stop : Nat}

theorem run_bind {p : Parser α} {f : α → Parser β} {r : Reading β}
    (h : (p >>= f).run tokens pos stop = .ok r) :
    ∃ a b, p.run tokens pos stop = .ok a ∧ (f a.value).run tokens a.next stop = .ok b ∧
      r = a.behind b := by
  change (andThen p f).run tokens pos stop = .ok r at h
  simp only [andThen] at h
  split at h
  · cases h
  next a ha =>
    split at h
    · cases h
    next b hb =>
      cases h
      exact ⟨a, b, ha, hb, rfl⟩

theorem run_token {f : Lexeme → Option α} {r : Reading α}
    (h : (token f).run tokens pos stop = .ok r) :
    ∃ token value, tokens[pos]? = some token ∧ f token.lexeme = some value ∧
      r = ⟨value, pos + 1, .none⟩ := by
  unfold token at h
  simp only at h
  split at h
  · split at h
    next value hvalue =>
      cases h
      obtain ⟨token, htoken, hvalue⟩ := Option.bind_eq_some_iff.mp hvalue
      exact ⟨token, value, htoken, hvalue, rfl⟩
    · cases h
  · cases h

theorem run_tree {r : Reading Unit} (h : tree.run tokens pos stop = .ok r) :
    pos < treeEnd tokens pos ∧ r = ⟨(), treeEnd tokens pos, .none⟩ := by
  unfold tree at h
  simp only at h
  split at h
  next hnext =>
    cases h
    exact ⟨hnext.1, rfl⟩
  · cases h

theorem run_group {d : Delimiter} {p : Parser α} {r : Reading α}
    (h : (group d p).run tokens pos stop = .ok r) :
    ∃ lo hi partner s, tokens[pos]? = some ⟨.opening d, lo, hi, partner⟩ ∧ pos < partner ∧
      p.run tokens (pos + 1) partner = .ok s ∧ r.next = partner + 1 ∧
        r.found.all = s.found.all := by
  unfold group at h
  simp only at h
  split at h
  next opened lo hi partner hopening =>
    split at h
    next hpartner =>
      split at h
      · cases h
      next s hs =>
        cases h
        refine ⟨lo, hi, partner, s, hpartner.1 ▸ hopening, hpartner.2.1, hs, rfl, ?_⟩
        simp only
        split <;> rfl
    · cases h
  · cases h

theorem run_mapFound {p : Parser α} {f : α → Findings → Findings}
    {hf : ∀ value lo hi g, Findings.Sound lo hi g → Findings.Sound lo hi (f value g)}
    {hsub : ∀ value g, (f value g).all ⊆ g.all} {r : Reading α}
    (h : (p.mapFound f hf hsub).run tokens pos stop = .ok r) :
    ∃ s, p.run tokens pos stop = .ok s ∧ r = ⟨s.value, s.next, f s.value s.found⟩ := by
  unfold Parser.mapFound at h
  simp only at h
  split at h
  next s hs =>
    cases h
    exact ⟨s, hs, rfl⟩
  · cases h

theorem run_closure {head : Parser α} {body : α → Parser β} [head.Firm] [head.Quiet]
    [∀ value, (body value).Firm] {r : Reading β}
    (h : (closure head body).run tokens pos stop = .ok r) :
    ∃ a b c, head.run tokens pos stop = .ok a ∧ (body a.value).run tokens a.next stop = .ok b ∧
      c.start = pos ∧ r = ⟨b.value, b.next, closureFindings c a.found b.found⟩ := by
  unfold closure at h
  simp only at h
  split at h
  · cases h
  next a ha =>
    split at h
    · cases h
    next b hb =>
      cases h
      exact ⟨a, b, _, ha, hb, rfl, rfl⟩

theorem run_attributed {attributes : Parser Unit} {p : Parser α} {owner : α → Owner}
    [attributes.Quiet] [p.Leads owner] {r : Reading α}
    (h : (attributed attributes p owner).run tokens pos stop = .ok r) :
    ∃ a b, attributes.run tokens pos stop = .ok a ∧ p.run tokens a.next stop = .ok b ∧
      r.value = b.value ∧ r.next = b.next ∧
        (owner b.value = .closure → r.found = attributedFindings pos a.found b.found) := by
  unfold attributed at h
  simp only at h
  split at h
  · cases h
  next a ha =>
    split at h
    · cases h
    next b hb =>
      cases h
      refine ⟨a, b, ha, hb, rfl, rfl, fun howner => ?_⟩
      simp only [howner]

/-- What holds of a step that ends the repetition, and of a step in front of a run of which it holds,
holds of all runs. -/
theorem loop_induction {step : σ → Parser (σ ⊕ α)} {motive : σ → Nat → Reading α → Prop}
    (last : ∀ {state pos a value}, (step state).run tokens pos stop = .ok a →
      a.value = .inr value → motive state pos (a.behind ⟨value, a.next, .none⟩))
    (more : ∀ {state pos a next r}, (step state).run tokens pos stop = .ok a →
      a.value = .inl next → motive next a.next r → motive state pos (a.behind r))
    {state : σ} {r : Reading α} (h : (loop state step).run tokens pos stop = .ok r) :
    motive state pos r := by
  have hcount : ∀ count state pos r, (repeatUpTo step count state).run tokens pos stop = .ok r →
      motive state pos r := by
    intro count
    induction count with
    | zero => exact nofun
    | succ count ih =>
      intro state pos r h
      obtain ⟨a, b, ha, hb, rfl⟩ := run_bind (p := step state) h
      split at hb
      next next hvalue => exact more ha hvalue (ih next a.next b hb)
      next value hvalue =>
        cases hb
        exact last ha hvalue
  exact hcount (stop - pos + 1) state pos r h

end Runs

/-! ### Sequences -/

instance steady_pure (value : α) : (pure value : Parser α).Steady := by
  constructor
  intro tokens pos stop r _ h hpos
  cases h
  exact hpos

instance firm_fail : (fail : Parser α).Firm := ⟨nofun, nofun⟩

instance firm_failAt (index : Nat) : (failAt index : Parser α).Firm := ⟨nofun, nofun⟩

/-- What is firm in front of something steady. -/
instance Firm.bind {p : Parser α} {f : α → Parser β} [hp : p.Firm] [hf : ∀ a, (f a).Steady] :
    (p >>= f).Firm := by
  constructor
  · intro tokens pos stop r h
    obtain ⟨a, b, ha, hb, rfl⟩ := run_bind h
    exact Nat.lt_of_lt_of_le (hp.lt ha) ((f a.value).sound hb).pos_le
  · intro tokens pos stop r hm h
    obtain ⟨a, b, ha, hb, rfl⟩ := run_bind h
    exact (hf a.value).ends (r := b) hm hb (hp.ends hm ha)

/-- Anything in front of what is firm. -/
instance Firm.behind {p : Parser α} {f : α → Parser β} [hf : ∀ a, (f a).Firm] : (p >>= f).Firm := by
  constructor
  · intro tokens pos stop r h
    obtain ⟨a, b, ha, hb, rfl⟩ := run_bind h
    exact Nat.lt_of_le_of_lt (p.sound ha).pos_le ((hf a.value).lt (r := b) hb)
  · intro tokens pos stop r hm h
    obtain ⟨a, b, -, hb, rfl⟩ := run_bind h
    exact (hf a.value).ends (r := b) hm hb

instance Steady.bind {p : Parser α} {f : α → Parser β} [hp : p.Steady]
    [hf : ∀ a, (f a).Steady] : (p >>= f).Steady := by
  constructor
  intro tokens pos stop r hm h hpos
  obtain ⟨a, b, ha, hb, rfl⟩ := run_bind h
  exact (hf a.value).ends (r := b) hm hb (hp.ends hm ha hpos)

instance Firm.discard {p : Parser α} [p.Firm] : (discard p).Firm :=
  inferInstanceAs (p >>= fun _ => pure ()).Firm

instance Steady.discard {p : Parser α} [p.Steady] : (discard p).Steady :=
  inferInstanceAs (p >>= fun _ => pure ()).Steady

instance Firm.ite {c : Prop} [Decidable c] {p q : Parser α} [hp : p.Firm] [hq : q.Firm] :
    (if c then p else q).Firm := by
  split
  · exact hp
  · exact hq

instance Steady.ite {c : Prop} [Decidable c] {p q : Parser α} [hp : p.Steady] [hq : q.Steady] :
    (if c then p else q).Steady := by
  split
  · exact hp
  · exact hq

instance Firm.delay {p : Unit → Parser α} [hp : (p ()).Firm] : (delay p).Firm :=
  ⟨fun h => hp.lt h, fun hm h => hp.ends hm h⟩

instance Steady.delay {p : Unit → Parser α} [hp : (p ()).Steady] : (delay p).Steady :=
  ⟨fun hm h => hp.ends hm h⟩

/-! ### Tokens -/

theorem firm_token {f : Lexeme → Option α} (hf : ∀ inner, f (.doc inner) = none) :
    (token f).Firm := by
  constructor
  · intro tokens pos stop r h
    obtain ⟨token, value, -, -, rfl⟩ := run_token h
    exact Nat.lt_succ_self pos
  · intro tokens pos stop r _ h
    obtain ⟨token, value, htoken, hvalue, rfl⟩ := run_token h
    refine ⟨pos, rfl, token, htoken, ?_⟩
    cases hlexeme : token.lexeme with
    | doc inner =>
      rw [hlexeme, hf] at hvalue
      cases hvalue
    | _ => rfl

/-- A step over a token, or over a group, that is no documentation. -/
theorem firmAt_treeEnd {tokens : Array Token} {pos : Nat} {token : Token} (hm : Matched tokens)
    (htoken : tokens[pos]? = some token) (hdoc : token.lexeme.isDoc = false)
    (hnext : pos < treeEnd tokens pos) : FirmAt tokens (treeEnd tokens pos) := by
  unfold treeEnd at hnext ⊢
  split
  next d lo hi partner hopening =>
    rw [hopening] at hnext
    exact hm pos _ d hopening rfl (Nat.le_of_lt_succ hnext)
  next => exact ⟨pos, rfl, token, htoken, hdoc⟩

instance firm_group (d : Delimiter) (p : Parser α) : (group d p).Firm := by
  constructor
  · intro tokens pos stop r h
    obtain ⟨lo, hi, partner, s, -, hlt, -, hnext, -⟩ := run_group h
    exact hnext ▸ Nat.lt_succ_of_lt hlt
  · intro tokens pos stop r hm h
    obtain ⟨lo, hi, partner, s, hopening, hlt, -, hnext, -⟩ := run_group h
    exact hnext ▸ hm pos _ d hopening rfl (Nat.le_of_lt hlt)

/-! ### Repetitions -/

/-- Some firm steps, the last of which ends the repetition. -/
instance Firm.loop {state : σ} {step : σ → Parser (σ ⊕ α)} [hstep : ∀ s, (step s).Firm] :
    (loop state step).Firm := by
  constructor
  · intro tokens pos stop r h
    refine loop_induction (motive := fun _ pos r => pos < r.next) ?_ ?_ h
    · exact fun {state} _ _ _ ha _ => (hstep state).lt ha
    · exact fun {state} _ _ _ _ ha _ ih => Nat.lt_trans ((hstep state).lt ha) ih
  · intro tokens pos stop r hm h
    refine loop_induction (motive := fun _ _ r => FirmAt tokens r.next) ?_ ?_ h
    · exact fun {state} _ _ _ ha _ => (hstep state).ends hm ha
    · exact fun _ _ ih => ih

instance Steady.loop {state : σ} {step : σ → Parser (σ ⊕ α)} [hstep : ∀ s, (step s).Steady] :
    (loop state step).Steady := by
  constructor
  intro tokens pos stop r hm h
  refine loop_induction (motive := fun _ pos r => FirmAt tokens pos → FirmAt tokens r.next) ?_ ?_ h
  · exact fun {state} _ _ _ ha _ => (hstep state).ends hm ha
  · exact fun {state} _ _ _ _ ha _ ih hpos => ih ((hstep state).ends hm ha hpos)

instance Firm.many {item? : Parser Bool} [item?.Firm] : (many item?).Firm :=
  @Firm.loop _ _ _ _ fun _ => inferInstanceAs (item? >>= fun _ => pure _).Firm

instance Steady.many {item? : Parser Bool} [item?.Steady] : (many item?).Steady :=
  @Steady.loop _ _ _ _ fun _ => inferInstanceAs (item? >>= fun _ => pure _).Steady

/-! ### Closures -/

section Found

variable {p : Parser α} {f : α → Findings → Findings}
  {hf : ∀ value lo hi g, Findings.Sound lo hi g → Findings.Sound lo hi (f value g)}
  {hsub : ∀ value g, (f value g).all ⊆ g.all}

/-- Where a reading ends does not depend on what is found. -/
theorem Firm.mapFound [hp : p.Firm] : (p.mapFound f hf hsub).Firm := by
  constructor
  · intro tokens pos stop r h
    obtain ⟨s, hs, rfl⟩ := run_mapFound h
    exact hp.lt (r := s) hs
  · intro tokens pos stop r hm h
    obtain ⟨s, hs, rfl⟩ := run_mapFound h
    exact hp.ends (r := s) hm hs

theorem Steady.mapFound [hp : p.Steady] : (p.mapFound f hf hsub).Steady := by
  constructor
  intro tokens pos stop r hm h hpos
  obtain ⟨s, hs, rfl⟩ := run_mapFound h
  exact hp.ends (r := s) hm hs hpos

end Found

instance Firm.construct {p : Parser α} [p.Firm] : (construct p).Firm := .mapFound

instance Firm.unseenIf {p : Parser α} {unread : α → Bool} [p.Firm] : (unseenIf unread p).Firm :=
  .mapFound

instance Steady.unseenIf {p : Parser α} {unread : α → Bool} [p.Steady] :
    (unseenIf unread p).Steady := .mapFound

instance firm_closure (head : Parser α) (body : α → Parser β) [head.Firm] [head.Quiet]
    [hbody : ∀ value, (body value).Firm] : (closure head body).Firm := by
  constructor
  · intro tokens pos stop r h
    obtain ⟨a, b, c, ha, hb, -, rfl⟩ := run_closure h
    exact Nat.lt_of_le_of_lt (head.sound ha).pos_le ((hbody a.value).lt (r := b) hb)
  · intro tokens pos stop r hm h
    obtain ⟨a, b, c, -, hb, -, rfl⟩ := run_closure h
    exact (hbody a.value).ends (r := b) hm hb

instance Firm.attributed {attributes : Parser Unit} {p : Parser α} {owner : α → Owner} [hp : p.Firm]
    [attributes.Quiet] [p.Leads owner] : (attributed attributes p owner).Firm := by
  constructor
  · intro tokens pos stop r h
    obtain ⟨a, b, ha, hb, -, hnext, -⟩ := run_attributed h
    exact hnext ▸ Nat.lt_of_le_of_lt (attributes.sound ha).pos_le (hp.lt hb)
  · intro tokens pos stop r hm h
    obtain ⟨a, b, -, hb, -, hnext, -⟩ := run_attributed h
    exact hnext ▸ hp.ends hm hb

end ClosureLint.Rust.Parser
