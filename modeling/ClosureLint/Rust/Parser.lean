import ClosureLint.Rust.Findings
import ClosureLint.Rust.Token

/-! Parsers of token arrays. A parser reads on from an index and stops before another one, which
is the end of the array or a closing delimiter. Every parser carries the proof that it moves
forward within its bounds, that the closures it finds are in order and that none of them ends with
documentation. Most parsers of this module have these properties whatever they are made of. A
closure also asks that neither its head nor its body is an empty reading, and attributes ask that
the closure they belong to is the first thing behind them; these are classes of parsers. -/

namespace ClosureLint.Rust

/-- The index of the token that cannot continue what comes before it; the end of the tokens at
the end. -/
structure Fault where
  index : Nat
  deriving DecidableEq, Repr

/-- What a parser has read: a value, the index behind it, and the closures on the way. -/
structure Reading (α : Type) where
  value : α
  next : Nat
  found : Findings

/-- A reading goes forward within its bounds, and its closures are in order. -/
structure Reading.Sound {α : Type} (pos stop : Nat) (r : Reading α) : Prop where
  pos_le : pos ≤ r.next
  le_stop : pos ≤ stop → r.next ≤ stop
  found : r.found.Sound pos r.next

/-- The reading of a second parser behind that of a first one. -/
def Reading.behind {α β : Type} (r : Reading α) (s : Reading β) : Reading β :=
  ⟨s.value, s.next, r.found.append s.found⟩

theorem Reading.Sound.behind {α β : Type} {pos stop : Nat} {r : Reading α} {s : Reading β}
    (hr : r.Sound pos stop) (hs : s.Sound r.next stop) : (r.behind s).Sound pos stop :=
  ⟨Nat.le_trans hr.pos_le hs.pos_le, fun h => hs.le_stop (hr.le_stop h),
    Findings.Sound.append hr.pos_le hs.pos_le hr.found hs.found⟩

/-- Where nothing is read and nothing found. -/
theorem Reading.Sound.still {α : Type} {pos stop : Nat} {value : α} :
    Reading.Sound pos stop ⟨value, pos, .none⟩ :=
  ⟨Nat.le_refl _, id, Findings.sound_none⟩

/-- No closure that has been found ends with documentation. -/
def Findings.Firm (tokens : Array Token) (f : Findings) : Prop := ∀ c ∈ f.all, FirmAt tokens c.stop

theorem Findings.Firm.none {tokens : Array Token} : Findings.none.Firm tokens := nofun

theorem Findings.Firm.append {tokens : Array Token} {f g : Findings} (hf : f.Firm tokens)
    (hg : g.Firm tokens) : (f.append g).Firm tokens := by
  intro c hc
  have hf := hf c
  have hg := hg c
  simp only [Findings.all, Findings.append, List.mem_append] at hc hf hg
  grind

/-- A parser that reads from the index `pos` on and not beyond `stop`. -/
structure Parser (α : Type) where
  run : (tokens : Array Token) → (pos stop : Nat) → Except Fault (Reading α)
  sound : ∀ {tokens pos stop r}, run tokens pos stop = .ok r → r.Sound pos stop
  firm : ∀ {tokens pos stop r}, Matched tokens → run tokens pos stop = .ok r → r.found.Firm tokens

/-- The index behind the token, or the group of tokens, at `pos`. -/
def treeEnd (tokens : Array Token) (pos : Nat) : Nat :=
  match tokens[pos]? with
  | some ⟨.opening _, _, _, partner⟩ => partner + 1
  | _ => pos + 1

namespace Parser

variable {α β σ : Type}

/-! ### Sequences -/

def done (value : α) : Parser α where
  run _ pos _ := .ok ⟨value, pos, .none⟩
  sound e := by
    cases e
    exact .still
  firm _ e := by
    cases e
    exact Findings.Firm.none

/-- Reads on as the value read so far tells. -/
def andThen (p : Parser α) (f : α → Parser β) : Parser β where
  run tokens pos stop :=
    match p.run tokens pos stop with
    | .error fault => .error fault
    | .ok r =>
      match (f r.value).run tokens r.next stop with
      | .error fault => .error fault
      | .ok s => .ok (r.behind s)
  sound e := by
    split at e
    · cases e
    next r hr =>
      split at e
      · cases e
      next s hs =>
        cases e
        exact (p.sound hr).behind ((f r.value).sound hs)
  firm hm e := by
    split at e
    · cases e
    next r hr =>
      split at e
      · cases e
      next s hs =>
        cases e
        exact (p.firm hm hr).append ((f r.value).firm hm hs)

instance : Monad Parser where
  pure := done
  bind := andThen

def failAt (index : Nat) : Parser α where
  run _ _ _ := .error ⟨index⟩
  sound e := by cases e
  firm _ e := by cases e

def fail : Parser α where
  run _ pos _ := .error ⟨pos⟩
  sound e := by cases e
  firm _ e := by cases e

/-- Looks at the tokens without reading any. -/
def look (f : (tokens : Array Token) → (pos stop : Nat) → α) : Parser α where
  run tokens pos stop := .ok ⟨f tokens pos stop, pos, .none⟩
  sound e := by
    cases e
    exact .still
  firm _ e := by
    cases e
    exact Findings.Firm.none

def delay (p : Unit → Parser α) : Parser α where
  run tokens pos stop := (p ()).run tokens pos stop
  sound e := (p ()).sound e
  firm hm e := (p ()).firm hm e

/-! ### Tokens -/

def position : Parser Nat := look fun _ pos _ => pos

def atEnd : Parser Bool := look fun _ pos stop => decide (stop ≤ pos)

/-- Reads one token that has a reading by `f`. -/
def token (f : Lexeme → Option α) : Parser α where
  run tokens pos stop :=
    if pos < stop then
      match tokens[pos]?.bind fun token => f token.lexeme with
      | some value => .ok ⟨value, pos + 1, .none⟩
      | none => .error ⟨pos⟩
    else .error ⟨pos⟩
  sound e := by
    split at e
    next hpos =>
      split at e
      · cases e
        exact ⟨Nat.le_succ _, fun _ => hpos, Findings.sound_none⟩
      · cases e
    · cases e
  firm _ e := by
    split at e
    · split at e
      · cases e
        exact Findings.Firm.none
      · cases e
    · cases e

/-- Steps over one token or one group of tokens. -/
def tree : Parser Unit where
  run tokens pos stop :=
    let next := treeEnd tokens pos
    if pos < next ∧ next ≤ stop then .ok ⟨(), next, .none⟩ else .error ⟨pos⟩
  sound e := by
    simp only at e
    split at e
    next hn =>
      cases e
      exact ⟨Nat.le_of_lt hn.1, fun _ => hn.2, Findings.sound_none⟩
    · cases e
  firm _ e := by
    simp only at e
    split at e
    · cases e
      exact Findings.Firm.none
    · cases e

/-- Reads a group of tokens, and its contents by `p`. A token that `p` leaves over is noted. -/
def group (delimiter : Delimiter) (p : Parser α) : Parser α where
  run tokens pos stop :=
    match tokens[pos]? with
    | some ⟨.opening opened, _, _, partner⟩ =>
      if opened = delimiter ∧ pos < partner ∧ partner < stop then
        match p.run tokens (pos + 1) partner with
        | .error fault => .error fault
        | .ok r =>
          .ok ⟨r.value, partner + 1,
            if r.next < partner then r.found.leaving r.next else r.found⟩
      else .error ⟨pos⟩
    | _ => .error ⟨pos⟩
  sound {_ pos _ _} e := by
    split at e
    next opened _ _ partner _ =>
      split at e
      next hp =>
        split at e
        · cases e
        next r hr =>
          cases e
          have hr := p.sound hr
          have hpos := hr.pos_le
          have hstop := hr.le_stop hp.2.1
          refine ⟨by simp only; omega, fun _ => hp.2.2, ?_⟩
          have hs : r.found.Sound pos (partner + 1) :=
            Findings.Sound.mono hr.found (by omega) (by omega)
          simp only
          split
          · exact hs.leaving _
          · exact hs
      · cases e
    · cases e
  firm hm e := by
    split at e
    · split at e
      · split at e
        · cases e
        next r hr =>
          cases e
          have hr := p.firm hm hr
          simp only
          split
          · exact hr
          · exact hr
      · cases e
    · cases e

/-! ### Choices -/

/-- What `p` would read from here; nothing is read. -/
def ahead? (p : Parser α) : Parser (Option α) :=
  look fun tokens pos stop =>
    match p.run tokens pos stop with
    | .ok r => some r.value
    | .error _ => none

/-- Reads by `p` if it can, and nothing otherwise. -/
def attempt? (p : Parser α) : Parser (Option α) where
  run tokens pos stop :=
    match p.run tokens pos stop with
    | .ok r => .ok ⟨some r.value, r.next, r.found⟩
    | .error _ => .ok ⟨none, pos, .none⟩
  sound e := by
    split at e
    next r hr =>
      cases e
      have hr := p.sound hr
      exact ⟨hr.pos_le, hr.le_stop, hr.found⟩
    · cases e
      exact .still
  firm hm e := by
    split at e
    next r hr =>
      cases e
      exact p.firm hm hr
    · cases e
      exact Findings.Firm.none

/-! ### Repetitions -/

/-- Repeats a step, which either goes on with a new state or ends with a result, at most `count`
times. -/
def repeatUpTo (step : σ → Parser (σ ⊕ α)) : (count : Nat) → σ → Parser α
  | 0, _ => fail
  | count + 1, state =>
    (step state).andThen fun
      | .inl next => delay fun _ => repeatUpTo step count next
      | .inr value => done value

/-- Repeats a step that reads at least one token whenever it goes on. -/
def loop (state : σ) (step : σ → Parser (σ ⊕ α)) : Parser α where
  run tokens pos stop := (repeatUpTo step (stop - pos + 1) state).run tokens pos stop
  sound e := (repeatUpTo step _ state).sound e
  firm hm e := (repeatUpTo step _ state).firm hm e

def many (item? : Parser Bool) : Parser Unit :=
  loop () fun _ => item?.andThen fun more => done (if more then .inl () else .inr ())

/-! ### Closures -/

/-- Changes what has been found, where soundness is kept and no closure is added. -/
def mapFound (p : Parser α) (f : α → Findings → Findings)
    (hf : ∀ value lo hi g, Findings.Sound lo hi g → Findings.Sound lo hi (f value g))
    (hsub : ∀ value g, (f value g).all ⊆ g.all) : Parser α where
  run tokens pos stop :=
    match p.run tokens pos stop with
    | .ok r => .ok ⟨r.value, r.next, f r.value r.found⟩
    | .error fault => .error fault
  sound e := by
    split at e
    next r hr =>
      cases e
      have hr := p.sound hr
      exact ⟨hr.pos_le, hr.le_stop, hf _ _ _ _ hr.found⟩
    · cases e
  firm hm e := by
    split at e
    next r hr =>
      cases e
      exact fun c hc => p.firm hm hr c (hsub _ _ hc)
    · cases e

/-- A complete construct: closures in its attributes come first, then those in its generic
parameters, then the others. -/
def construct (p : Parser α) : Parser α :=
  p.mapFound (fun _ => Findings.settle) (fun _ _ _ _ => Findings.Sound.settle) fun _ _ _ hc => hc

/-- Attributes of the construct around them. -/
def asAttribute (p : Parser α) : Parser α :=
  p.mapFound (fun _ => Findings.asAttribute) (fun _ _ _ _ => Findings.Sound.asAttribute)
    fun _ g _ hc => by simpa [Findings.asAttribute, Findings.all] using hc

/-- Generic parameters, or their conditions, of the construct around them. -/
def asGeneric (p : Parser α) : Parser α :=
  p.mapFound (fun _ => Findings.asGeneric) (fun _ _ _ _ => Findings.Sound.asGeneric)
    fun _ g _ hc => by simpa [Findings.asGeneric, Findings.all] using hc

/-- Reads what is kept unread if its value says so: closures in it are not seen then. -/
def unseenIf (unread : α → Bool) (p : Parser α) : Parser α :=
  p.mapFound (fun value found => if unread value then found.forget else found)
    (fun value _ _ g hg => by
      by_cases hu : unread value
      · simp only [hu, if_true]; exact Findings.sound_forget (f := g)
      · simp only [hu]; exact hg)
    fun value g c hc => by
      by_cases hu : unread value
      · simp [hu, Findings.forget, Findings.all] at hc
      · simpa [hu] using hc

/-- Every reading has a last token, which is no documentation. -/
class Firm (p : Parser α) : Prop where
  lt : ∀ {tokens pos stop r}, p.run tokens pos stop = .ok r → pos < r.next
  ends : ∀ {tokens pos stop r}, Matched tokens → p.run tokens pos stop = .ok r →
    FirmAt tokens r.next

/-- No closure begins where a reading does. -/
class Quiet (p : Parser α) : Prop where
  behind : ∀ {tokens pos stop r}, p.run tokens pos stop = .ok r → ∀ c ∈ r.found.all, pos < c.start

/-- The findings of a closure: it is listed before those in its head and its body. -/
def closureFindings (c : ClosureRange) (head body : Findings) : Findings :=
  ⟨(head.append body).stray, [], [], c :: (head.all ++ body.all)⟩

theorem closureFindings_sound {c : ClosureRange} {head body : Findings}
    (hh : head.Sound c.start c.bodyStart) (hquiet : ∀ d ∈ head.all, c.start < d.start)
    (hb : body.Sound c.bodyStart c.stop) : (closureFindings c head body).Sound c.start c.stop := by
  have hl := Findings.Ordered.append (Nat.le_of_lt c.start_lt) (Nat.le_of_lt c.bodyStart_lt) hh hb
  refine ⟨fun d hd => ?_, List.Pairwise.cons (fun d hd => ?_) hl.pairwise⟩
  · rcases List.mem_cons.mp hd with rfl | hd
    · exact ⟨Nat.le_refl _, Nat.le_refl _⟩
    · exact hl.within d hd
  · rcases List.mem_append.mp hd with hd | hd
    · exact .inr (.inr (.inl ⟨hquiet d hd, (hh.within d hd).2⟩))
    · exact .inr (.inr (.inr (hb.within d hd)))

theorem closureFindings_firm {tokens : Array Token} {c : ClosureRange} {head body : Findings}
    (hh : head.Firm tokens) (hb : body.Firm tokens) (hstop : FirmAt tokens c.stop) :
    (closureFindings c head body).Firm tokens := by
  intro d hd
  simp only [closureFindings, Findings.all, List.nil_append, List.mem_cons, List.mem_append] at hd
  rcases hd with rfl | hd
  · exact hstop
  · exact (hh.append hb) d (by simp [Findings.all, Findings.append]; grind)

/-- A closure. Its head and its body are no empty readings, and its head begins with a token of its
own. -/
def closure (head : Parser α) (body : α → Parser β) [hhead : head.Firm] [hquiet : head.Quiet]
    [hbody : ∀ value, (body value).Firm] : Parser β where
  run tokens pos stop :=
    match hr : head.run tokens pos stop with
    | .error fault => .error fault
    | .ok r =>
      match hs : (body r.value).run tokens r.next stop with
      | .error fault => .error fault
      | .ok s =>
        let range := ⟨pos, r.next, s.next, hhead.lt hr, (hbody r.value).lt hs⟩
        .ok ⟨s.value, s.next, closureFindings range r.found s.found⟩
  sound e := by
    split at e
    · cases e
    next r hr =>
      split at e
      · cases e
      next s hs =>
        cases e
        have hsr := head.sound hr
        have hss := (body r.value).sound hs
        exact ⟨Nat.le_trans hsr.pos_le hss.pos_le, fun h => hss.le_stop (hsr.le_stop h),
          closureFindings_sound (c := ⟨_, _, _, hhead.lt hr, (hbody r.value).lt hs⟩) hsr.found
            (hquiet.behind hr) hss.found⟩
  firm hm e := by
    split at e
    · cases e
    next r hr =>
      split at e
      · cases e
      next s hs =>
        cases e
        exact closureFindings_firm (head.firm hm hr) ((body r.value).firm hm hs)
          ((hbody r.value).ends hm hs)

/-- What the attributes in front of an expression belong to. -/
inductive Owner where
  /-- A closure, which then begins with its attributes. -/
  | closure
  /-- An expression that is kept unread together with its attributes. -/
  | unread
  | other
  deriving DecidableEq, Repr

/-- The owner of attributes in front of something that is no closure. -/
def Owner.ofUnread (unread : Bool) : Owner := if unread then .unread else .other

theorem Owner.ofUnread_ne (unread : Bool) : Owner.ofUnread unread ≠ .closure := by
  cases unread <;> nofun

/-- Where attributes in front of a reading would belong to a closure, it begins with the reading and
is the first one, up to those in attributes and generic parameters. -/
class Leads (p : Parser α) (owner : α → Owner) : Prop where
  first : ∀ {tokens pos stop r}, p.run tokens pos stop = .ok r → owner r.value = .closure →
    ∃ c rest, r.found.plain = c :: rest ∧ c.start = pos

/-- The closures of a closure with attributes from `pos` on, and of those attributes: the closure
begins with its attributes and stays first. -/
def withAttributes (pos : Nat) (attributes : List ClosureRange) :
    List ClosureRange → List ClosureRange
  | [] => attributes
  | c :: rest => c.startingAt pos :: (attributes ++ rest)

/-- The findings of a closure behind attributes from `pos` on. -/
def attributedFindings (pos : Nat) (attributes f : Findings) : Findings where
  stray := attributes.stray.or f.stray
  attributes := f.attributes
  generics := f.generics
  plain := withAttributes pos attributes.all f.plain

theorem attributedFindings_sound {pos mid next : Nat} {attributes f : Findings} {c : ClosureRange}
    {rest : List ClosureRange} (hpos : pos ≤ mid) (hnext : mid ≤ next)
    (ha : attributes.Sound pos mid) (hquiet : ∀ a ∈ attributes.all, pos < a.start)
    (hf : f.Sound mid next) (hplain : f.plain = c :: rest) (hc : c.start = mid) :
    (attributedFindings pos attributes f).Sound pos next := by
  simp only [Findings.Sound, attributedFindings, Findings.all, hplain, withAttributes] at hf ⊢
  rw [← Findings.all]
  generalize f.attributes ++ f.generics = front at hf ⊢
  have hmoved : Findings.Ordered pos next ((front ++ [c.startingAt pos]) ++ rest) := by
    simpa using hf.startingAt hpos hc
  have hapart : ∀ a ∈ attributes.all, ∀ d ∈ front ++ c :: rest, a.Precedes d ∧ d.Precedes a :=
    fun a ha' d hd => Findings.precedes_of_apart (ha.within a ha') (hf.within d hd)
  have hfirst : ∀ a ∈ attributes.all, (c.startingAt pos).Precedes a := by
    intro a ha'
    refine .inr (.inr (.inl ⟨?_, ?_⟩))
    · exact (ClosureRange.startingAt_start (hc ▸ hpos)).symm ▸ hquiet a ha'
    · exact Nat.le_trans (ha.within a ha').2 (hc ▸ Nat.le_of_lt c.start_lt)
  have hinsert := hmoved.insert (ha.mono (Nat.le_refl pos) hnext)
    (fun a ha' d hd => (List.mem_append.mp hd).elim
      (fun hd => (hapart a ha' d (List.mem_append_left _ hd)).2)
      fun hd => List.mem_singleton.mp hd ▸ hfirst a ha')
    fun a ha' d hd => (hapart a ha' d (by simp [hd])).1
  simpa using hinsert

/-- Attributes do not change where closures end. -/
theorem exists_stop_eq {pos : Nat} {attributes closures : List ClosureRange} {d : ClosureRange}
    (hd : d ∈ withAttributes pos attributes closures) :
    ∃ c ∈ attributes ++ closures, d.stop = c.stop := by
  unfold withAttributes at hd
  split at hd
  · exact ⟨d, List.mem_append_left _ hd, rfl⟩
  next c rest =>
    rw [List.mem_cons] at hd
    rcases hd with rfl | hd
    · exact ⟨c, by simp, rfl⟩
    · exact ⟨d, by simp only [List.mem_append, List.mem_cons] at hd ⊢; grind, rfl⟩

theorem attributedFindings_firm {tokens : Array Token} {pos : Nat} {attributes f : Findings}
    (ha : attributes.Firm tokens) (hf : f.Firm tokens) :
    (attributedFindings pos attributes f).Firm tokens := by
  intro d hd
  rw [Findings.all, attributedFindings, List.mem_append] at hd
  rcases hd with hd | hd
  · exact hf d (List.mem_append_left _ hd)
  · obtain ⟨c, hc, hstop⟩ := exists_stop_eq hd
    rw [hstop]
    exact (List.mem_append.mp hc).elim (ha c) fun hc => hf c (List.mem_append_right _ hc)

/-- An expression behind its attributes; `owner` tells what the attributes belong to. -/
def attributed (attributes : Parser Unit) (p : Parser α) (owner : α → Owner)
    [hquiet : attributes.Quiet] [hleads : p.Leads owner] : Parser α where
  run tokens pos stop :=
    match attributes.run tokens pos stop with
    | .error fault => .error fault
    | .ok r =>
      match p.run tokens r.next stop with
      | .error fault => .error fault
      | .ok s =>
        .ok ⟨s.value, s.next, match owner s.value with
          | .other => r.found.append s.found
          | .unread => r.found.forget.append s.found
          | .closure => attributedFindings pos r.found s.found⟩
  sound e := by
    split at e
    · cases e
    next r hr =>
      split at e
      · cases e
      next s hs =>
        cases e
        have hsr := attributes.sound hr
        have hss := p.sound hs
        refine ⟨Nat.le_trans hsr.pos_le hss.pos_le, fun h => hss.le_stop (hsr.le_stop h), ?_⟩
        simp only
        split
        · exact Findings.Sound.append hsr.pos_le hss.pos_le hsr.found hss.found
        · exact Findings.Sound.append hsr.pos_le hss.pos_le Findings.sound_forget hss.found
        next howner =>
          obtain ⟨c, rest, hplain, hc⟩ := hleads.first hs howner
          exact attributedFindings_sound hsr.pos_le hss.pos_le hsr.found (hquiet.behind hr)
            hss.found hplain hc
  firm hm e := by
    split at e
    · cases e
    next r hr =>
      split at e
      · cases e
      next s hs =>
        cases e
        have hr := attributes.firm hm hr
        have hs := p.firm hm hs
        simp only
        split
        · exact hr.append hs
        · exact Findings.Firm.append nofun hs
        · exact attributedFindings_firm hr hs

end Parser

end ClosureLint.Rust
