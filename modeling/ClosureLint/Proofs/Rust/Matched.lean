import ClosureLint.Proofs.Rust.FrontEnd

/-! The last token of a closure. The lexer gives every opening delimiter a closing one for a
partner, so no group ends with documentation, and with that no closure does. -/

namespace ClosureLint.Rust

theorem FirmAt.push {tokens : Array Token} {next : Nat} (h : FirmAt tokens next) (token : Token) :
    FirmAt (tokens.push token) next := by
  obtain ⟨i, rfl, t, ht, hdoc⟩ := h
  obtain ⟨hi, rfl⟩ := Array.getElem?_eq_some_iff.mp ht
  exact ⟨i, rfl, tokens[i], by rw [Array.getElem?_push_lt hi], hdoc⟩

theorem firmAt_push {tokens : Array Token} {token : Token} (h : token.lexeme.isDoc = false) :
    FirmAt (tokens.push token) (tokens.size + 1) :=
  ⟨tokens.size, rfl, token, Array.getElem?_push_size, h⟩

theorem FirmAt.modify {tokens : Array Token} {next : Nat} (h : FirmAt tokens next)
    (index partner : Nat) :
    FirmAt (tokens.modify index fun token => { token with partner := partner }) next := by
  obtain ⟨i, rfl, t, ht, hdoc⟩ := h
  refine ⟨i, rfl, if index = i then { t with partner := partner } else t, ?_, ?_⟩
  · rw [Array.getElem?_modify, ht]
    split <;> rfl
  · split <;> exact hdoc

theorem Matched.push {tokens : Array Token} (h : Matched tokens) (lexeme : Lexeme) (lo hi : Nat) :
    Matched (tokens.push ⟨lexeme, lo, hi, 0⟩) := by
  intro i token d htoken hopening hpartner
  rw [Array.getElem?_push] at htoken
  split at htoken
  next hlast =>
    cases htoken
    obtain rfl : lexeme = .opening d := hopening
    have hzero : tokens.size = 0 := by
      simp only at hpartner
      omega
    have := @firmAt_push tokens ⟨.opening d, lo, hi, 0⟩ rfl
    rwa [hzero] at this
  next => exact (h i token d htoken hopening hpartner).push _

/-- The partner that a token is given is no documentation. -/
theorem Matched.modify {tokens : Array Token} (h : Matched tokens) (index : Nat) {partner : Nat}
    (hpartner : FirmAt tokens (partner + 1)) :
    Matched (tokens.modify index fun token => { token with partner := partner }) := by
  intro i token d htoken hopening hle
  refine FirmAt.modify ?_ index partner
  rw [Array.getElem?_modify] at htoken
  split at htoken
  · obtain ⟨t, -, rfl⟩ := Option.map_eq_some_iff.mp htoken
    exact hpartner
  · exact h i token d htoken hopening hle

namespace Lexer

theorem matched_push {s : Lexer} (h : Matched s.tokens) (lexeme : Lexeme) (n : Nat) :
    Matched (s.push lexeme n).tokens := by
  obtain ⟨rest, offset, tokens, unclosed⟩ := s
  exact Matched.push h lexeme _ _

theorem matched_leave {s next : Lexer} {d : Delimiter} (h : Matched s.tokens)
    (hleave : s.leave d = .ok next) : Matched next.tokens := by
  unfold leave at hleave
  split at hleave
  · cases hleave
  next opened index outer hunclosed =>
    split at hleave
    · cases hleave
      refine Matched.modify (matched_push h (.closing d) 1) index ?_
      obtain ⟨rest, offset, tokens, unclosed⟩ := s
      simp only [push, Array.size_push, Nat.add_sub_cancel]
      exact firmAt_push rfl
    · cases hleave

theorem matched_step {s next : Lexer} (h : Matched s.tokens) (hstep : s.step = .ok next) :
    Matched next.tokens := by
  unfold step at hstep
  split at hstep
  · cases hstep
    exact h
  · split at hstep
    · cases hstep
      exact matched_push h _ _
    · split at hstep
      · cases hstep
        exact matched_push h _ _
      · exact matched_leave h hstep
      · split at hstep
        · cases hstep
          exact matched_push h _ _
        · cases hstep

theorem matched_run {fuel : Nat} {s : Lexer} {tokens : Array Token} (h : Matched s.tokens)
    (hrun : s.run fuel = .ok tokens) : Matched tokens := by
  induction fuel generalizing s with
  | zero => cases hrun
  | succ fuel ih =>
    rw [run] at hrun
    split at hrun
    · split at hrun
      · cases hrun
        exact h
      · cases hrun
    · split at hrun
      next next hstep => exact ih (matched_step h hstep) hrun
      · cases hrun

end Lexer

/-- The groups of a text's tokens do not end with documentation. -/
theorem matched_tokenize {t : Text} {tokens : Array Token} (h : tokenize t = .ok tokens) :
    Matched tokens := by
  have hempty : Matched #[] := by
    intro i token d htoken
    simp at htoken
  unfold tokenize at h
  simp only at h
  split at h
  · exact Lexer.matched_run hempty h
  · exact Lexer.matched_run hempty h

/-- No closure ends with documentation. -/
theorem firmAt_stop {tokens : Array Token} {ranges : List ClosureRange} (hm : Matched tokens)
    (h : closureRanges tokens = .ok ranges) {range : ClosureRange} (hr : range ∈ ranges) :
    FirmAt tokens range.stop := by
  unfold closureRanges at h
  split at h
  · cases h
  next reading hreading =>
    split at h
    · cases h
    · cases h
      exact (sourceFile _).firm hm hreading range hr

end ClosureLint.Rust
