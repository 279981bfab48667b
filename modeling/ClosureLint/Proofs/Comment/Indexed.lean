import ClosureLint.Proofs.Comment.CodeBytes

/-! A turn by offsets. What a turn looks at it reads here out of the whole text, by offset: its own
byte, what is ahead of it, and the one or two bytes behind it. A read outside the text is an error,
except where a turn asks whether there is anything left to be read. At no offset inside the text
does that error occur, and the turn is the one on the bytes behind and ahead of the offset. -/

namespace ClosureLint.Comment

/-- A read outside the text, and the offset it was for. -/
structure OutOfRange where
  offset : Nat
  deriving DecidableEq, Repr

def byteAt (bytes : List UInt8) (i : Nat) : Except OutOfRange UInt8 :=
  match bytes[i]? with
  | some b => .ok b
  | none => .error ⟨i⟩

/-- The bytes from an offset on. From the end of the text on there are none, which is no error. -/
def bytesFrom (bytes : List UInt8) (i : Nat) : Except OutOfRange (List UInt8) :=
  if i ≤ bytes.length then .ok (bytes.drop i) else .error ⟨i⟩

def bytesAt (bytes : List UInt8) (i width : Nat) : Except OutOfRange (List UInt8) :=
  if i + width ≤ bytes.length then .ok ((bytes.drop i).take width) else .error ⟨i + width⟩

/-- A read that only takes place under a flag. -/
def readIf {α : Type} (flag : Bool) (read : Except OutOfRange α) (otherwise : α) :
    Except OutOfRange α :=
  if flag then read else .ok otherwise

/-- Whether a marker stands at an offset. For an empty marker nothing is read. -/
def occursAt (marker : Text) (bytes : List UInt8) (i : Nat) : Except OutOfRange Bool :=
  if marker.isEmpty then .ok false
  else do
    let ahead ← bytesFrom bytes i
    return marker.utf8.isPrefixOf ahead

/-- Whether an `r` at an offset may open a raw string, by the one or two bytes before it. -/
def mayOpenRawAt (bytes : List UInt8) (i : Nat) : Except OutOfRange Bool :=
  match i with
  | 0 => .ok true
  | p + 1 => do
    let previous ← byteAt bytes p
    if previous == 0x62 then
      match p with
      | 0 => return true
      | q + 1 =>
        let before ← byteAt bytes q
        return !isWord before
    else return !isWord previous

/-- The number of hashes of the raw string that begins at an offset. The text may end behind the
hashes. -/
def rawHashesAt (bytes : List UInt8) (i : Nat) : Except OutOfRange (Option Nat) := do
  let b ← byteAt bytes i
  if b == 0x72 then
    let may ← mayOpenRawAt bytes i
    if may then
      let ahead ← bytesFrom bytes (i + 1)
      let hashes := (ahead.takeWhile (· == 0x23)).length
      return if bytes[i + 1 + hashes]? = some 0x22 then some hashes else none
    else return none
  else return none

/-- Whether so many hashes stand at an offset. The text may end in front of the last of them. -/
def hashesAt (bytes : List UInt8) (i hashes : Nat) : Bool :=
  match bytesAt bytes i hashes with
  | .ok ahead => ahead.all (· == 0x23)
  | .error _ => false

/-- The width of the character literal at an offset. Behind its first byte the text may end
anywhere. -/
def charLiteralWidthAt (bytes : List UInt8) (i : Nat) : Except OutOfRange (Option Nat) := do
  let b ← byteAt bytes i
  if b == 0x27 then
    match bytes[i + 1]? with
    | none => return none
    | some lead =>
      if lead == 0x5c then
        match bytesFrom bytes (i + 3) with
        | .ok ahead => return ((ahead.take escapeReach).findIdx? (· == 0x27)).map (· + 4)
        | .error _ => return none
      else if lead == 0x27 || lead == 0x0a then return none
      else
        let width := charWidth lead
        return if bytes[i + 1 + width]? = some 0x27 then some (width + 2) else none
  else return none

def stepBlockAt (style : CommentStyle) (depth : Nat) (bytes : List UInt8) (i : Nat) :
    Except OutOfRange Step := do
  let opens ← readIf style.nestedBlocks (occursAt style.blockOpen bytes i) false
  if opens then return ⟨markerWidth style.blockOpen, .block (depth + 1), false, false⟩
  else
    let closes ← occursAt style.blockClose bytes i
    if closes then return ⟨markerWidth style.blockClose, closeBlock depth, false, false⟩
    else return ⟨1, .block depth, false, false⟩

def stepQuotedAt (bytes : List UInt8) (i : Nat) (b : UInt8) : Step :=
  if b == 0x5c && bytes[i + 1]?.any (· != 0x0a) then ⟨2, .quoted, !isBlank b, false⟩
  else ⟨1, if b == 0x22 then .code else .quoted, !isBlank b, false⟩

def stepRawAt (hashes : Nat) (bytes : List UInt8) (i : Nat) (b : UInt8) : Step :=
  if b == 0x22 && hashesAt bytes (i + 1) hashes then ⟨1 + hashes, .code, !isBlank b, false⟩
  else ⟨1, .rawQuoted hashes, !isBlank b, false⟩

def stepCodeAt (style : CommentStyle) (bytes : List UInt8) (i : Nat) (b : UInt8) :
    Except OutOfRange Step := do
  let opensLine ← occursAt style.line bytes i
  if opensLine then return ⟨markerWidth style.line, .lineComment, false, false⟩
  else
    let opensBlock ← occursAt style.blockOpen bytes i
    if opensBlock then return ⟨markerWidth style.blockOpen, .block 1, false, false⟩
    else
      let raw ← readIf style.rawStrings (rawHashesAt bytes i) none
      match raw with
      | some hashes => return ⟨hashes + 2, .rawQuoted hashes, !isBlank b, false⟩
      | none =>
        if b == 0x22 then return ⟨1, .quoted, !isBlank b, false⟩
        else
          let literal ← readIf style.charLiterals (charLiteralWidthAt bytes i) none
          match literal with
          | some width => return ⟨width, .code, !isBlank b, false⟩
          | none => return ⟨1, .code, !isBlank b, false⟩

def stepAt (style : CommentStyle) (mode : Mode) (bytes : List UInt8) (i : Nat) :
    Except OutOfRange Step := do
  let b ← byteAt bytes i
  if b == 0x0a then return ⟨1, if mode = .lineComment then .code else mode, false, true⟩
  else
    match mode with
    | .lineComment => return ⟨1, .lineComment, false, false⟩
    | .block depth => stepBlockAt style depth bytes i
    | .quoted => return stepQuotedAt bytes i b
    | .rawQuoted hashes => return stepRawAt hashes bytes i b
    | .code => stepCodeAt style bytes i b

/-! ### Reads inside the text -/

variable {style : CommentStyle} {front rest : List UInt8} {b : UInt8}

@[simp] theorem ok_bind {α β : Type} (a : α) (f : α → Except OutOfRange β) :
    (Except.ok a >>= f) = f a := rfl

@[simp] theorem pure_eq_ok {α : Type} (a : α) : (pure a : Except OutOfRange α) = .ok a := rfl

theorem readIf_ok {α : Type} (flag : Bool) (a otherwise : α) :
    readIf flag (.ok a) otherwise = .ok (if flag then a else otherwise) := by
  cases flag <;> rfl

theorem byteAt_append : byteAt (front ++ b :: rest) front.length = .ok b := by
  simp [byteAt]

theorem bytesFrom_append (back : List UInt8) :
    bytesFrom (front ++ back) front.length = .ok back := by
  simp [bytesFrom]

theorem bytesFrom_ahead : bytesFrom (front ++ b :: rest) (front.length + 1) = .ok rest := by
  simp [bytesFrom]

theorem getElem?_ahead (n : Nat) : (front ++ b :: rest)[front.length + 1 + n]? = rest[n]? := by
  rw [List.getElem?_append_right (by omega),
    show front.length + 1 + n - front.length = n + 1 by omega, List.getElem?_cons_succ]

theorem occursAt_append (marker : Text) (back : List UInt8) :
    occursAt marker (front ++ back) front.length = .ok (occurs marker back) := by
  rw [occursAt, occurs, bytesFrom_append]
  cases marker.isEmpty <;> rfl

theorem byteAt_reverse (behind back : List UInt8) :
    byteAt (behind.reverse ++ b :: back) behind.length = .ok b := by
  rw [← List.length_reverse]
  exact byteAt_append

theorem mayOpenRawAt_reverse (behind back : List UInt8) :
    mayOpenRawAt (behind.reverse ++ back) behind.length = .ok (mayOpenRaw behind) := by
  cases behind with
  | nil => rfl
  | cons previous behind =>
    rw [List.reverse_cons, List.append_assoc, List.singleton_append, List.length_cons]
    simp only [mayOpenRawAt.eq_def, byteAt_reverse, ok_bind]
    by_cases hb : previous = 0x62
    · subst hb
      cases behind with
      | nil => rfl
      | cons x behind => simp [byteAt_reverse, mayOpenRaw]
    · simp [hb, mayOpenRaw]

theorem mayOpenRawAt_append (back : List UInt8) :
    mayOpenRawAt (front ++ back) front.length = .ok (mayOpenRaw front.reverse) := by
  have hreverse := mayOpenRawAt_reverse front.reverse back
  rwa [List.reverse_reverse, List.length_reverse] at hreverse

theorem rawHashesAt_append : rawHashesAt (front ++ b :: rest) front.length =
    .ok (rawHashes? front.reverse b rest) := by
  rw [rawHashesAt, byteAt_append, mayOpenRawAt_append, bytesFrom_ahead, rawHashes?]
  by_cases hb : b = 0x72
  · cases hmay : mayOpenRaw front.reverse with
    | true => simp [hb, getElem?_ahead]
    | false => simp [hb]
  · simp [hb]

theorem hashesAt_append (hashes : Nat) : hashesAt (front ++ b :: rest) (front.length + 1) hashes =
    (List.replicate hashes (0x23 : UInt8)).isPrefixOf rest := by
  have hdrop : (front ++ b :: rest).drop (front.length + 1) = rest := by simp
  have hlength : (front ++ b :: rest).length = front.length + 1 + rest.length := by
    rw [List.length_append, List.length_cons]
    omega
  rw [hashesAt, bytesAt, hdrop, hlength, Bool.eq_iff_iff, List.isPrefixOf_iff_prefix,
    List.prefix_iff_eq_take, List.length_replicate]
  by_cases hfits : hashes ≤ rest.length
  · rw [if_pos (by omega)]
    simp only [List.all_eq_true, beq_iff_eq]
    rw [eq_comm, List.eq_replicate_iff, List.length_take, Nat.min_eq_left hfits]
    exact ⟨fun h => ⟨rfl, h⟩, fun h => h.2⟩
  · rw [if_neg (by omega)]
    refine ⟨nofun, fun h => absurd (congrArg List.length h) ?_⟩
    rw [List.length_replicate, List.length_take]
    omega

theorem charLiteralWidthAt_append : charLiteralWidthAt (front ++ b :: rest) front.length =
    .ok (charLiteralWidth? b rest) := by
  rw [charLiteralWidthAt, byteAt_append]
  by_cases hb : b = 0x27
  · subst hb
    cases rest with
    | nil => simp [charLiteralWidth?]
    | cons x tail =>
      by_cases hs : x = 0x5c
      · subst hs
        cases tail with
        | nil => simp [bytesFrom, charLiteralWidth?]
        | cons y tail => simp [bytesFrom, charLiteralWidth?_escape]
      by_cases hq : x = 0x27
      · subst hq
        simp [charLiteralWidth?]
      by_cases hn : x = 0x0a
      · subst hn
        simp [charLiteralWidth?]
      rw [charLiteralWidth?_byte hq hs hn]
      simp [hs, hq, hn, getElem?_ahead]
  · simp [hb, charLiteralWidth?]

/-! ### Turns by offsets -/

theorem stepBlockAt_append (depth : Nat) :
    stepBlockAt style depth (front ++ b :: rest) front.length =
      .ok (stepBlock style depth (b :: rest)) := by
  have hopen (found : Bool) :
      readIf style.nestedBlocks (.ok found) false = .ok (style.nestedBlocks && found) := by
    cases style.nestedBlocks <;> rfl
  rw [stepBlockAt, stepBlock, occursAt_append, occursAt_append, hopen]
  simp only [ok_bind, pure_eq_ok]
  split
  · rfl
  · split <;> rfl

theorem stepQuotedAt_append :
    stepQuotedAt (front ++ b :: rest) front.length b = stepQuoted b rest := by
  have hnext : (front ++ b :: rest)[front.length + 1]? = rest.head? := by
    rw [List.head?_eq_getElem?]
    exact getElem?_ahead 0
  rw [stepQuotedAt, stepQuoted, hnext]
  split
  next h =>
    obtain rfl : b = 0x5c := beq_iff_eq.mp (Bool.and_eq_true_iff.mp h).1
    rfl
  next =>
    split
    next h =>
      obtain rfl := beq_iff_eq.mp h
      rfl
    next => rfl

theorem stepRawAt_append (hashes : Nat) :
    stepRawAt hashes (front ++ b :: rest) front.length b = stepRaw hashes b rest := by
  rw [stepRawAt, stepRaw, hashesAt_append]
  split
  next h =>
    obtain rfl : b = 0x22 := beq_iff_eq.mp (Bool.and_eq_true_iff.mp h).1
    rfl
  next => rfl

theorem stepCodeAt_append :
    stepCodeAt style (front ++ b :: rest) front.length b =
      .ok (stepCode style front.reverse b rest) := by
  rw [stepCodeAt, stepCode, occursAt_append, occursAt_append, rawHashesAt_append,
    charLiteralWidthAt_append, readIf_ok, readIf_ok]
  simp only [ok_bind, pure_eq_ok]
  split
  · rfl
  split
  · rfl
  cases hraw : if style.rawStrings then rawHashes? front.reverse b rest else none with
  | some hashes =>
    obtain ⟨rfl, -⟩ := rawHashes?_eq_some (Option.ite_none_right_eq_some.mp hraw).2
    rfl
  | none =>
    simp only
    split
    next hb =>
      obtain rfl := beq_iff_eq.mp hb
      rfl
    next =>
      cases hchar : if style.charLiterals then charLiteralWidth? b rest else none with
      | some width =>
        obtain rfl := eq_quote_of_charLiteralWidth? (Option.ite_none_right_eq_some.mp hchar).2
        rfl
      | none => rfl

theorem stepAt_append (style : CommentStyle) (mode : Mode) :
    stepAt style mode (front ++ b :: rest) front.length =
      .ok (step style mode front.reverse b rest) := by
  rw [stepAt, step.eq_def, byteAt_append, ok_bind]
  split
  · rfl
  · cases mode with
    | lineComment => rfl
    | block depth => exact stepBlockAt_append depth
    | quoted => exact congrArg Except.ok stepQuotedAt_append
    | rawQuoted hashes => exact congrArg Except.ok (stepRawAt_append hashes)
    | code => exact stepCodeAt_append

/-- At every offset inside the text a turn reads nothing outside the text, and is the turn on the
bytes behind and ahead of that offset. -/
theorem stepAt_eq (style : CommentStyle) (mode : Mode) {bytes : List UInt8} {i : Nat}
    (h : i < bytes.length) : stepAt style mode bytes i =
      .ok (step style mode (bytes.take i).reverse bytes[i] (bytes.drop (i + 1))) := by
  have hsplit : bytes.take i ++ bytes[i] :: bytes.drop (i + 1) = bytes := by
    rw [← List.drop_eq_getElem_cons h, List.take_append_drop]
  have hlength : (bytes.take i).length = i := by
    rw [List.length_take, Nat.min_eq_left (Nat.le_of_lt h)]
  have happend := @stepAt_append (bytes.take i) (bytes.drop (i + 1)) bytes[i] style mode
  rwa [hsplit, hlength] at happend

example : stepAt .rust .code [0x72] 1 = .error ⟨1⟩ := rfl

end ClosureLint.Comment
