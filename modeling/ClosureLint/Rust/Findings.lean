/-! The closures that a stretch of tokens holds, as ranges of token indices. Closures never
overlap by halves: of two of them, either they lie apart, or one lies in the head or in the body
of the other, and then the outer one is listed first. Closures in attributes and in generic
parameters are kept on lists of their own until the construct they belong to is complete, since
they come first there, wherever they stand. -/

namespace ClosureLint.Rust

/-- A closure: its head is `start ..< bodyStart` and its body `bodyStart ..< stop`. -/
structure ClosureRange where
  start : Nat
  bodyStart : Nat
  stop : Nat
  start_lt : start < bodyStart
  bodyStart_lt : bodyStart < stop
  deriving DecidableEq, Repr

namespace ClosureRange

/-- How a closure `a` lies to one that is listed after it. -/
def Precedes (a b : ClosureRange) : Prop :=
  a.stop ≤ b.start ∨ b.stop ≤ a.start ∨ (a.start < b.start ∧ b.stop ≤ a.bodyStart) ∨
    (a.bodyStart ≤ b.start ∧ b.stop ≤ a.stop)

def Within (lo hi : Nat) (c : ClosureRange) : Prop := lo ≤ c.start ∧ c.stop ≤ hi

/-- The closure together with what stands in front of it from an index on. -/
def startingAt (c : ClosureRange) (index : Nat) : ClosureRange :=
  { c with
    start := min index c.start
    start_lt := Nat.lt_of_le_of_lt (Nat.min_le_right ..) c.start_lt }

variable {a c d : ClosureRange}

theorem startingAt_start {index : Nat} (h : index ≤ c.start) : (c.startingAt index).start = index :=
  Nat.min_eq_left h

/-- A closure that none of the later ones begins before may begin earlier. -/
theorem Precedes.startingAt (h : c.Precedes d) (hd : c.start ≤ d.start) (index : Nat) :
    (c.startingAt index).Precedes d := by
  have := d.start_lt
  have := d.bodyStart_lt
  have : (c.startingAt index).start ≤ c.start := Nat.min_le_right ..
  rcases h with h | h | ⟨h, h'⟩ | h
  · exact .inl h
  · omega
  · exact .inr (.inr (.inl ⟨by omega, h'⟩))
  · exact .inr (.inr (.inr h))

/-- What comes before a closure that it does not begin before lies behind it. -/
theorem Precedes.startingAt_of_le (h : a.Precedes c) (ha : c.start ≤ a.start) (index : Nat) :
    a.Precedes (c.startingAt index) := by
  have := a.start_lt
  have := a.bodyStart_lt
  rcases h with h | h | h | h
  · omega
  · exact .inr (.inl h)
  · omega
  · omega

end ClosureRange

/-- What has been found in a stretch of tokens. -/
structure Findings where
  /-- The first token that was left over in a group of tokens. -/
  stray : Option Nat
  /-- The closures in attributes. -/
  attributes : List ClosureRange
  /-- The closures in generic parameters and their conditions. -/
  generics : List ClosureRange
  /-- All other closures. -/
  plain : List ClosureRange
  deriving DecidableEq, Repr

namespace Findings

def none : Findings := ⟨.none, [], [], []⟩

/-- All closures in the order in which they are listed in the end. -/
def all (f : Findings) : List ClosureRange := f.attributes ++ f.generics ++ f.plain

/-- The closures lie between two token indices, and each precedes the later ones. -/
structure Ordered (lo hi : Nat) (closures : List ClosureRange) : Prop where
  within : ∀ c ∈ closures, c.Within lo hi
  pairwise : closures.Pairwise ClosureRange.Precedes

def append (f g : Findings) : Findings where
  stray := f.stray.or g.stray
  attributes := f.attributes ++ g.attributes
  generics := f.generics ++ g.generics
  plain := f.plain ++ g.plain

/-- The findings of a complete construct: all its closures are plain for what it stands in. -/
def settle (f : Findings) : Findings := ⟨f.stray, [], [], f.all⟩

def asAttribute (f : Findings) : Findings := ⟨f.stray, f.all, [], []⟩

def asGeneric (f : Findings) : Findings := ⟨f.stray, [], f.all, []⟩

/-- The findings in tokens that are kept unread: no closures. -/
def forget (f : Findings) : Findings := ⟨f.stray, [], [], []⟩

/-- The findings with a token that was left over, unless there was one before. -/
def leaving (f : Findings) (index : Nat) : Findings := { f with stray := f.stray.or (some index) }

theorem Ordered.nil {lo hi : Nat} : Ordered lo hi [] := ⟨by simp, .nil⟩

theorem Ordered.mono {lo hi lo' hi' : Nat} {l : List ClosureRange} (h : Ordered lo hi l)
    (hl : lo' ≤ lo) (hh : hi ≤ hi') : Ordered lo' hi' l :=
  ⟨fun c hc => ⟨Nat.le_trans hl (h.within c hc).1, Nat.le_trans (h.within c hc).2 hh⟩, h.pairwise⟩

/-- Closures of separate stretches precede each other both ways. -/
theorem precedes_of_apart {lo mid hi : Nat} {a b : ClosureRange} (ha : a.Within lo mid)
    (hb : b.Within mid hi) : a.Precedes b ∧ b.Precedes a :=
  ⟨.inl (Nat.le_trans ha.2 hb.1), .inr (.inl (Nat.le_trans ha.2 hb.1))⟩

theorem Ordered.append {lo mid hi : Nat} {l m : List ClosureRange} (hlo : lo ≤ mid)
    (hhi : mid ≤ hi) (hl : Ordered lo mid l) (hm : Ordered mid hi m) : Ordered lo hi (l ++ m) :=
  ⟨fun c hc => by
    rcases List.mem_append.1 hc with h | h
    · exact ⟨(hl.within c h).1, Nat.le_trans (hl.within c h).2 hhi⟩
    · exact ⟨Nat.le_trans hlo (hm.within c h).1, (hm.within c h).2⟩,
  List.pairwise_append.2 ⟨hl.pairwise, hm.pairwise, fun a ha b hb =>
    (precedes_of_apart (hl.within a ha) (hm.within b hb)).1⟩⟩

theorem Ordered.insert {lo hi : Nat} {l m r : List ClosureRange} (h : Ordered lo hi (l ++ r))
    (hm : Ordered lo hi m) (hl : ∀ a ∈ m, ∀ d ∈ l, d.Precedes a)
    (hr : ∀ a ∈ m, ∀ d ∈ r, a.Precedes d) : Ordered lo hi (l ++ (m ++ r)) := by
  obtain ⟨hleft, hright, hcross⟩ := List.pairwise_append.mp h.pairwise
  refine ⟨fun c hc => ?_, List.pairwise_append.mpr ⟨hleft,
    List.pairwise_append.mpr ⟨hm.pairwise, hright, hr⟩, fun d hd a ha => ?_⟩⟩
  · simp only [List.mem_append] at hc
    rcases hc with hc | hc | hc
    · exact h.within c (List.mem_append_left r hc)
    · exact hm.within c hc
    · exact h.within c (List.mem_append_right l hc)
  · exact (List.mem_append.mp ha).elim (fun ha => hl a ha d hd) (hcross d hd a)

/-- A closure that begins where the stretch does may take in what stands in front of it. -/
theorem Ordered.startingAt {lo hi pos : Nat} {front rest : List ClosureRange} {c : ClosureRange}
    (h : Ordered lo hi (front ++ c :: rest)) (hpos : pos ≤ lo) (hc : c.start = lo) :
    Ordered pos hi (front ++ c.startingAt pos :: rest) := by
  obtain ⟨hfront, hcrest, hcross⟩ := List.pairwise_append.mp h.pairwise
  obtain ⟨hrest, hrests⟩ := List.pairwise_cons.mp hcrest
  have hle : ∀ d ∈ front ++ c :: rest, c.start ≤ d.start := fun d hd => hc ▸ (h.within d hd).1
  have hwithin := (h.mono hpos (Nat.le_refl hi)).within
  simp only [List.forall_mem_append, List.forall_mem_cons] at hle hwithin
  constructor
  · simp only [List.forall_mem_append, List.forall_mem_cons]
    refine ⟨hwithin.1, ⟨?_, hwithin.2.1.2⟩, hwithin.2.2⟩
    exact Nat.le_of_eq (ClosureRange.startingAt_start (hc ▸ hpos)).symm
  · refine List.pairwise_append.mpr ⟨hfront,
      .cons (fun d hd => (hrest d hd).startingAt (hle.2.2 d hd) pos) hrests, fun a ha d hd => ?_⟩
    rcases List.mem_cons.mp hd with rfl | hd
    · exact (hcross a ha c List.mem_cons_self).startingAt_of_le (hle.1 a ha) pos
    · exact hcross a ha d (List.mem_cons_of_mem c hd)

/-- Findings that are ordered between two token indices. -/
def Sound (lo hi : Nat) (f : Findings) : Prop := Ordered lo hi f.all

theorem sound_none {lo hi : Nat} : Sound lo hi none := Ordered.nil

theorem Sound.mono {lo hi lo' hi' : Nat} {f : Findings} (h : Sound lo hi f) (hl : lo' ≤ lo)
    (hh : hi ≤ hi') : Sound lo' hi' f :=
  Ordered.mono h hl hh

theorem Sound.settle {lo hi : Nat} {f : Findings} (h : Sound lo hi f) : Sound lo hi f.settle := by
  simpa [Sound, Findings.settle, all] using h

theorem Sound.asAttribute {lo hi : Nat} {f : Findings} (h : Sound lo hi f) :
    Sound lo hi f.asAttribute := by
  simpa [Sound, Findings.asAttribute, all] using h

theorem Sound.asGeneric {lo hi : Nat} {f : Findings} (h : Sound lo hi f) :
    Sound lo hi f.asGeneric := by
  simpa [Sound, Findings.asGeneric, all] using h

theorem sound_forget {lo hi : Nat} {f : Findings} : Sound lo hi f.forget := Ordered.nil

theorem Sound.leaving {lo hi : Nat} {f : Findings} (h : Sound lo hi f) (index : Nat) :
    Sound lo hi (f.leaving index) := h

/-- The findings of adjacent stretches may be joined list by list, since closures of separate
stretches precede each other both ways. -/
theorem Sound.append {lo mid hi : Nat} {f g : Findings} (hlo : lo ≤ mid) (hhi : mid ≤ hi)
    (hf : Sound lo mid f) (hg : Sound mid hi g) : Sound lo hi (f.append g) := by
  have apart : ∀ a ∈ f.all, ∀ b ∈ g.all, a.Precedes b ∧ b.Precedes a := fun a ha b hb =>
    precedes_of_apart (hf.within a ha) (hg.within b hb)
  have hl : ∀ c ∈ f.all, c.Within lo hi := (Sound.mono hf (Nat.le_refl lo) hhi).within
  have hr : ∀ c ∈ g.all, c.Within lo hi := (Sound.mono hg hlo (Nat.le_refl hi)).within
  have hp := hf.pairwise
  have gp := hg.pairwise
  simp only [all, List.pairwise_append, List.mem_append] at apart hl hr hp gp
  constructor
  · simp only [all, Findings.append, List.mem_append]
    grind
  · simp only [all, Findings.append, List.pairwise_append, List.mem_append]
    grind

end Findings

end ClosureLint.Rust
