import ViewWiring.Proofs.Address.Display

namespace ViewWiring.Address

def IsDigit (c : Char) : Prop := '0' ≤ c ∧ c ≤ '9'

def IsLetter (c : Char) : Prop := ('a' ≤ c ∧ c ≤ 'z') ∨ ('A' ≤ c ∧ c ≤ 'Z') ∨ c = '_' ∨ c = '$'

namespace TokenKind

inductive Word : TokenKind → List Char → Prop
  | number {cs : List Char} (hne : cs ≠ []) (hcs : ∀ c ∈ cs, IsDigit c) : Word .number cs
  | ident {c : Char} {cs : List Char} (hc : IsLetter c) (hcs : ∀ d ∈ cs, IsLetter d ∨ IsDigit d ∨ d = '-') :
      Word .ident (c :: cs)
  | mark {k : TokenKind} {m : Char} (hm : k.mark? = some m) : Word k [m]

structure Longest (k : TokenKind) (word text : List Char) : Prop where
  isWord : k.Word word
  leads : word <+: text
  longest : ∀ other w, Word other w → w <+: text → w.length ≤ word.length

end TokenKind

/-- To scan from the left is to skip blanks and to take the longest word that is there; this
leads from `text` at `offset` to what is left of it further on, over the tokens between. -/
inductive Reaches : (offset : Nat) → (text : List Char) → List Token → Nat → List Char → Prop
  | here (offset : Nat) (text : List Char) : Reaches offset text [] offset text
  | blank {offset stop : Nat} {c : Char} {cs rest : List Char} {ts : List Token} (hc : isBlank c = true)
      (h : Reaches (offset + c.utf8Size) cs ts stop rest) : Reaches offset (c :: cs) ts stop rest
  | token {offset stop : Nat} {k : TokenKind} {word cs rest : List Char} {ts : List Token}
      (hword : k.Longest word (word ++ cs)) (h : Reaches (offset + byteLength word) cs ts stop rest) :
      Reaches offset (word ++ cs) (⟨k, .ofList word, offset⟩ :: ts) stop rest

/-- Tokens that are all of a text but blanks: each stands at its offset as it is spelled, in
order and apart from the others, and goes on as long as it can. -/
structure Covers (text : String) (ts : List Token) : Prop where
  ordered : ts.Pairwise fun t u => t.offset + t.text.utf8ByteSize ≤ u.offset
  sliced : ∀ t ∈ ts, ∃ before after, text = before ++ t.text ++ after ∧ before.utf8ByteSize = t.offset ∧
    t.kind.Word t.text.toList ∧ ∀ c ∈ after.toList.head?, ¬ t.kind.Word (t.text.toList ++ [c])
  covered : ∀ before c after, text = before ++ .singleton c ++ after → isBlank c = true ∨
    ∃ t ∈ ts, t.offset ≤ before.utf8ByteSize ∧ before.utf8ByteSize < t.offset + t.text.utf8ByteSize
  hyphens : ∀ before after, text = before ++ "-" ++ after →
    ∃ t ∈ ts, t.kind = .ident ∧ t.offset < before.utf8ByteSize ∧ before.utf8ByteSize < t.offset + t.text.utf8ByteSize

structure StrayAt (text : String) (s : Stray) : Prop where
  found : ∃ before after, text = before ++ .singleton s.found ++ after ∧ before.utf8ByteSize = s.offset ∧
    ∃ ts, tokens before = .ok ts
  notBlank : isBlank s.found = false
  startsNone : ∀ k cs, ¬ TokenKind.Word k (s.found :: cs)

section

variable {c : Char} {cs : List Char}

theorem isDigit_iff : c.isDigit = true ↔ IsDigit c := by
  simp [Char.isDigit, IsDigit, Char.le_def]

theorem isNameStart_iff : isNameStart c = true ↔ IsLetter c := by
  have hupper : c.isUpper = true ↔ 'A' ≤ c ∧ c ≤ 'Z' := decide_eq_true_iff
  have hlower : c.isLower = true ↔ 'a' ≤ c ∧ c ≤ 'z' :=
    Bool.and_eq_true_iff.trans (and_congr decide_eq_true_iff decide_eq_true_iff)
  have halpha : c.isAlpha = true ↔ c.isUpper = true ∨ c.isLower = true := Bool.or_eq_true_iff
  simp only [isNameStart, Bool.or_eq_true, decide_eq_true_eq, halpha, hupper, hlower, IsLetter]
  grind

theorem IsLetter.not_digit (h : IsLetter c) : ¬ IsDigit c := by
  rintro ⟨hlow, hhigh⟩
  rcases h with ⟨h, _⟩ | ⟨h, _⟩ | rfl | rfl
  · exact absurd (Char.le_trans h hhigh) (by decide)
  · exact absurd (Char.le_trans h hhigh) (by decide)
  · exact absurd hhigh (by decide)
  · exact absurd hlow (by decide)

theorem isNamePart_iff : isNamePart c = true ↔ IsLetter c ∨ IsDigit c ∨ c = '-' := by
  rw [← isDigit_iff, ← isNameStart_iff]
  simp only [isNamePart, isNameStart, Char.isAlphanum, Bool.or_eq_true, decide_eq_true_eq]
  grind

end

section

variable {cs ds : List Char}

theorem byteLength_eq (cs : List Char) : byteLength cs = (String.ofList cs).utf8ByteSize := by
  induction cs using List.reverseRecOn with
  | nil => rfl
  | append_singleton cs c ih =>
      rw [String.ofList_append, String.utf8ByteSize_append, ← ih, ← String.singleton_eq_ofList,
        String.utf8ByteSize_singleton, byteLength, List.foldl_append, byteLength]
      rfl

theorem byteLength_toList (text : String) : byteLength text.toList = text.utf8ByteSize := by
  rw [byteLength_eq, String.ofList_toList]

theorem byteLength_append (cs ds : List Char) : byteLength (cs ++ ds) = byteLength cs + byteLength ds := by
  simp only [byteLength_eq, String.ofList_append, String.utf8ByteSize_append]

theorem byteLength_cons (c : Char) (cs : List Char) : byteLength (c :: cs) = c.utf8Size + byteLength cs := by
  simpa [byteLength] using byteLength_append [c] cs

theorem byteLength_pos (h : cs ≠ []) : 0 < byteLength cs := by
  cases cs with
  | nil => exact (h rfl).elim
  | cons c cs =>
      rw [byteLength_cons]
      exact Nat.add_pos_left c.utf8Size_pos _

end

namespace TokenKind

variable {k : TokenKind} {word cs : List Char}

theorem startingWith?_eq_number {c : Char} : startingWith? c = some .number ↔ IsDigit c := by
  rw [← isDigit_iff, startingWith?]
  grind

theorem startingWith?_eq_ident {c : Char} : startingWith? c = some .ident ↔ IsLetter c := by
  have hdigit : IsLetter c → ¬ c.isDigit = true := fun h hd => h.not_digit (isDigit_iff.mp hd)
  rw [← isNameStart_iff] at hdigit ⊢
  rw [startingWith?]
  grind

theorem startingWith?_mark {m : Char} (hm : k.mark? = some m) : startingWith? m = some k := by
  cases k <;> cases hm <;> rfl

theorem word_iff_forms : k.Word cs ↔ k.Forms cs := by
  constructor
  · intro h
    cases h with
    | number hne hcs =>
        cases cs with
        | nil => exact (hne rfl).elim
        | cons c cs =>
            obtain ⟨hc, hcs⟩ := List.forall_mem_cons.mp hcs
            exact ⟨startingWith?_eq_number.mpr hc, fun d hd => isDigit_iff.mpr (hcs d hd)⟩
    | ident hc hcs => exact ⟨startingWith?_eq_ident.mpr hc, fun d hd => isNamePart_iff.mpr (hcs d hd)⟩
    | mark hm => exact ⟨startingWith?_mark hm, nofun⟩
  · intro h
    cases cs with
    | nil => exact h.elim
    | cons c cs =>
        obtain ⟨hc, hcs⟩ := h
        cases hm : k.mark? with
        | some m =>
            obtain rfl := eq_mark hc hm
            obtain rfl : cs = [] := by
              apply List.eq_nil_iff_forall_not_mem.mpr
              intro d hd
              exact absurd (hcs d hd) (by simp [goesOnWith_mark hm])
            exact .mark hm
        | none =>
            cases k with
            | number =>
                apply Word.number (List.cons_ne_nil _ _)
                rw [List.forall_mem_cons]
                exact ⟨startingWith?_eq_number.mp hc, fun d hd => isDigit_iff.mp (hcs d hd)⟩
            | ident => exact .ident (startingWith?_eq_ident.mp hc) fun d hd => isNamePart_iff.mp (hcs d hd)
            | dot | bracketOpen | bracketClose | greaterThan => cases hm

theorem Longest.forms {text : List Char} (h : k.Longest word text) : k.Forms word := word_iff_forms.mp h.isWord

theorem Longest.stops (h : k.Longest word (word ++ cs)) : ∀ c ∈ cs.head?, k.goesOnWith c = false := by
  intro c hc
  obtain ⟨rest, rfl⟩ := List.head?_eq_some_iff.mp hc
  apply Bool.eq_false_iff.mpr
  intro hgoes
  have hlonger : k.Forms (word ++ [c]) := by
    have hword := h.forms
    cases word with
    | nil => exact hword.elim
    | cons d body =>
        refine ⟨hword.1, ?_⟩
        intro e he
        rcases List.mem_append.mp he with he | he
        · exact hword.2 e he
        · exact List.mem_singleton.mp he ▸ hgoes
  have hlength := h.longest k _ (word_iff_forms.mpr hlonger) ⟨rest, by simp⟩
  simp at hlength

/-- The first character decides the kind, so a word is as long as it goes on. -/
theorem longest_of_stops (hword : k.Forms word) (hend : ∀ c ∈ cs.head?, k.goesOnWith c = false) :
    k.Longest word (word ++ cs) := by
  refine ⟨word_iff_forms.mpr hword, List.prefix_append word cs, ?_⟩
  intro other w hw hleads
  have hforms := word_iff_forms.mp hw
  by_contra hlong
  obtain ⟨more, rfl⟩ := List.prefix_of_prefix_length_le (List.prefix_append word cs) hleads
    (Nat.le_of_not_le hlong)
  rw [List.prefix_append_right_inj] at hleads
  cases word with
  | nil => exact hword.elim
  | cons d body =>
      cases more with
      | nil => simp at hlong
      | cons c more =>
          obtain ⟨rest, rfl⟩ := hleads
          obtain rfl : other = k := Option.some.inj (hforms.1.symm.trans hword.1)
          exact absurd (hforms.2 c (by simp)) (by simp [hend c rfl])

theorem startingWith?_eq_none {c : Char} : startingWith? c = none ↔ ∀ k cs, ¬ Word k (c :: cs) := by
  simp only [word_iff_forms, Option.eq_none_iff_forall_ne_some]
  constructor
  · intro h k cs hforms
    exact h k hforms.1
  · intro h k hc
    exact h k [] ⟨hc, nofun⟩

end TokenKind

variable {offset stop : Nat} {cs rest : List Char} {ts : List Token}

theorem Reaches.scanFrom_eq (h : Reaches offset cs ts stop rest) :
    scanFrom offset cs = (scanFrom stop rest).map (ts ++ ·) := by
  induction h with
  | here offset text => cases scanFrom offset text <;> rfl
  | blank hc _ ih => rw [scanFrom_blank hc, ih]
  | @token offset stop k word cs rest ts hword _ ih =>
      have hproper : Lexeme.Proper ⟨k, .ofList word⟩ := by
        rw [Lexeme.Proper, String.toList_ofList]
        exact hword.forms
      have hscan := scanFrom_lexeme hproper hword.stops offset
      rw [String.toList_ofList] at hscan
      rw [hscan, ih]
      cases scanFrom stop rest <;> rfl

/-- Scanning comes to the end of a text or to a character that begins nothing. -/
theorem exists_reaches (offset : Nat) (cs : List Char) : ∃ ts stop rest, Reaches offset cs ts stop rest ∧
    ∀ c ∈ rest.head?, isBlank c = false ∧ TokenKind.startingWith? c = none := by
  fun_induction scanFrom offset cs with
  | case1 offset => exact ⟨[], offset, [], .here offset [], by simp⟩
  | case2 offset c cs hc ih =>
      obtain ⟨ts, stop, rest, h, hstuck⟩ := ih
      exact ⟨ts, stop, rest, .blank hc h, hstuck⟩
  | case3 offset c cs hc hkind =>
      refine ⟨[], offset, c :: cs, .here offset _, ?_⟩
      rintro d ⟨⟩
      exact ⟨Bool.eq_false_iff.mpr hc, hkind⟩
  | case4 offset c cs _ kind hkind word ih =>
      obtain ⟨ts, stop, rest, h, hstuck⟩ := ih
      have hword : kind.Longest word (word ++ cs.dropWhile kind.goesOnWith) :=
        TokenKind.longest_of_stops ⟨hkind, List.all_eq_true.mp List.all_takeWhile⟩ (kind.stops_dropWhile cs)
      have hchars : c :: cs = word ++ cs.dropWhile kind.goesOnWith := by
        rw [List.cons_append, List.takeWhile_append_dropWhile]
      rw [hchars]
      exact ⟨_, stop, rest, .token hword h, hstuck⟩

theorem scanFrom_stray {c : Char} (hblank : isBlank c = false) (hnone : TokenKind.startingWith? c = none) :
    scanFrom offset (c :: cs) = .error ⟨offset, c⟩ := by
  rw [scanFrom, if_neg (by simp [hblank]), hnone]

theorem scanFrom_eq_ok : scanFrom offset cs = .ok ts ↔ ∃ stop, Reaches offset cs ts stop [] := by
  constructor
  · intro hscan
    obtain ⟨us, stop, rest, h, hstuck⟩ := exists_reaches offset cs
    rw [h.scanFrom_eq] at hscan
    cases rest with
    | nil =>
        rw [scanFrom] at hscan
        obtain rfl : us = ts := by simpa [Except.map] using hscan
        exact ⟨stop, h⟩
    | cons c rest =>
        obtain ⟨hblank, hnone⟩ := hstuck c rfl
        rw [scanFrom_stray hblank hnone] at hscan
        cases hscan
  · rintro ⟨stop, h⟩
    rw [h.scanFrom_eq, scanFrom]
    simp [Except.map]

theorem scanFrom_eq_error {s : Stray} : scanFrom offset cs = .error s ↔
    ∃ ts rest, Reaches offset cs ts s.offset (s.found :: rest) ∧ isBlank s.found = false ∧
      ∀ k w, ¬ TokenKind.Word k (s.found :: w) := by
  constructor
  · intro hscan
    obtain ⟨us, stop, rest, h, hstuck⟩ := exists_reaches offset cs
    rw [h.scanFrom_eq] at hscan
    cases rest with
    | nil =>
        rw [scanFrom] at hscan
        cases hscan
    | cons c rest =>
        obtain ⟨hblank, hnone⟩ := hstuck c rfl
        rw [scanFrom_stray hblank hnone] at hscan
        obtain rfl := Except.error.inj hscan
        exact ⟨us, rest, h, hblank, TokenKind.startingWith?_eq_none.mp hnone⟩
  · rintro ⟨ts, rest, h, hblank, hnone⟩
    rw [h.scanFrom_eq, scanFrom_stray hblank (TokenKind.startingWith?_eq_none.mpr hnone)]
    rfl

/-- Of what comes after, scanning has looked at the first character alone. -/
theorem Reaches.splice (h : Reaches offset cs ts stop rest) : ∃ before, cs = before ++ rest ∧
    stop = offset + byteLength before ∧
    ∀ other, (∀ c ∈ other.head?, c ∈ rest.head?) → Reaches offset (before ++ other) ts stop other := by
  induction h with
  | here offset text => exact ⟨[], rfl, rfl, fun other _ => .here offset other⟩
  | @blank offset stop c cs rest ts hc _ ih =>
      obtain ⟨before, rfl, rfl, h⟩ := ih
      exact ⟨c :: before, rfl, by rw [byteLength_cons, Nat.add_assoc], fun other hother => .blank hc (h other hother)⟩
  | @token offset stop k word cs rest ts hword _ ih =>
      obtain ⟨before, rfl, rfl, h⟩ := ih
      refine ⟨word ++ before, (List.append_assoc ..).symm, by rw [byteLength_append, Nat.add_assoc], ?_⟩
      intro other hother
      rw [List.append_assoc]
      refine .token (TokenKind.longest_of_stops hword.forms ?_) (h other hother)
      intro c hc
      apply hword.stops c
      cases before with
      | nil => exact hother c hc
      | cons => exact hc

theorem Reaches.before (h : Reaches offset cs ts stop rest) :
    ∃ before, cs = before ++ rest ∧ stop = offset + byteLength before ∧ Reaches offset before ts stop [] := by
  obtain ⟨before, hcs, hstop, h⟩ := h.splice
  exact ⟨before, hcs, hstop, by simpa using h []⟩

theorem Reaches.at_token {pre post : List Token} {t : Token} (h : Reaches offset cs (pre ++ t :: post) stop rest) :
    ∃ after, Reaches offset cs pre t.offset (t.text.toList ++ after) ∧
      t.kind.Longest t.text.toList (t.text.toList ++ after) := by
  generalize hts : pre ++ t :: post = ts at h
  induction h generalizing pre with
  | here => simp at hts
  | blank hc _ ih =>
      obtain ⟨after, h, hword⟩ := ih hts
      exact ⟨after, .blank hc h, hword⟩
  | @token offset stop k word cs rest ts hword hrest ih =>
      rcases List.append_eq_cons_iff.mp hts with ⟨rfl, heq⟩ | ⟨pre, rfl, rfl⟩
      · obtain ⟨rfl, _⟩ := List.cons.inj heq
        refine ⟨cs, ?_, ?_⟩
        · rw [String.toList_ofList]
          exact .here offset _
        · rw [String.toList_ofList]
          exact hword
      · obtain ⟨after, h, hlongest⟩ := ih rfl
        exact ⟨after, .token hword h, hlongest⟩

/-- Every character is a blank or has its place in a token. -/
theorem Reaches.place (h : Reaches offset cs ts stop []) {before after : List Char} {c : Char}
    (hcs : cs = before ++ c :: after) : isBlank c = true ∨ ∃ t ∈ ts, ∃ x y, t.text.toList = x ++ c :: y ∧
      offset + byteLength before = t.offset + byteLength x := by
  generalize hrest : ([] : List Char) = rest at h
  induction h generalizing before with
  | here => simp [← hrest] at hcs
  | @blank offset stop d cs rest ts hd _ ih =>
      rcases List.append_eq_cons_iff.mp hcs.symm with ⟨rfl, heq⟩ | ⟨before, rfl, rfl⟩
      · obtain ⟨rfl, _⟩ := List.cons.inj heq
        exact .inl hd
      · refine (ih rfl hrest).imp id ?_
        rintro ⟨t, ht, x, y, htext, hoffset⟩
        exact ⟨t, ht, x, y, htext, by rw [byteLength_cons, ← Nat.add_assoc, hoffset]⟩
  | @token offset stop k word cs rest ts hword _ ih =>
      rcases List.append_eq_append_iff.mp hcs with ⟨more, rfl, hafter⟩ | ⟨more, rfl, hafter⟩
      · refine (ih hafter hrest).imp id ?_
        rintro ⟨t, ht, x, y, htext, hoffset⟩
        exact ⟨t, List.mem_cons_of_mem _ ht, x, y, htext, by rw [byteLength_append, ← Nat.add_assoc, hoffset]⟩
      · cases more with
        | nil =>
            have hhere : cs = [] ++ c :: after := hafter.symm
            refine (ih hhere hrest).imp id ?_
            rintro ⟨t, ht, x, y, htext, hoffset⟩
            rw [List.append_nil] at hoffset
            exact ⟨t, List.mem_cons_of_mem _ ht, x, y, htext, hoffset⟩
        | cons d more =>
            obtain ⟨rfl, _⟩ := List.cons.inj hafter
            exact .inr ⟨_, List.mem_cons_self, before, more, String.toList_ofList, rfl⟩

theorem Reaches.ordered (h : Reaches offset cs ts stop rest) : (∀ t ∈ ts, offset ≤ t.offset) ∧
    ts.Pairwise fun t u => t.offset + t.text.utf8ByteSize ≤ u.offset := by
  induction h with
  | here => exact ⟨nofun, .nil⟩
  | blank _ _ ih => exact ⟨fun t ht => Nat.le_of_add_right_le (ih.1 t ht), ih.2⟩
  | token _ _ ih =>
      rw [byteLength_eq] at ih
      rw [List.forall_mem_cons, List.pairwise_cons]
      exact ⟨⟨Nat.le_refl _, fun t ht => Nat.le_of_add_right_le (ih.1 t ht)⟩, ih⟩

theorem TokenKind.Word.of_hyphen {k : TokenKind} {x y : List Char} (h : k.Word (x ++ '-' :: y)) :
    k = .ident ∧ x ≠ [] := by
  have hforms := word_iff_forms.mp h
  cases x with
  | nil => cases hforms.1
  | cons c x =>
      have hgoes := hforms.2 '-' (by simp)
      cases k <;> cases hgoes
      exact ⟨rfl, List.cons_ne_nil _ _⟩

section

variable {text : String}

/-- A token is a piece of the text; up to there scanning goes the same way in every text that
has the same first character at that place. -/
theorem Reaches.around {pre post : List Token} {t : Token} (h : Reaches 0 text.toList (pre ++ t :: post) stop []) :
    ∃ before after, text = before ++ t.text ++ after ∧ before.utf8ByteSize = t.offset ∧
      t.kind.Longest t.text.toList (t.text.toList ++ after.toList) ∧
      ∀ other, (∀ c ∈ other.head?, c ∈ (t.text.toList ++ after.toList).head?) →
        Reaches 0 (before.toList ++ other) pre t.offset other := by
  obtain ⟨after, hreach, hlongest⟩ := h.at_token
  obtain ⟨before, htext, hoffset, hsplice⟩ := hreach.splice
  refine ⟨.ofList before, .ofList after, ?_, ?_, ?_, ?_⟩
  · apply String.toList_inj.mp
    simp [htext]
  · rw [← byteLength_eq, hoffset, Nat.zero_add]
  · rwa [String.toList_ofList]
  · rwa [String.toList_ofList, String.toList_ofList]

theorem Covers.of_reaches (h : Reaches 0 text.toList ts stop []) : Covers text ts := by
  have hsliced : ∀ t ∈ ts, ∃ before after, text = before ++ t.text ++ after ∧ before.utf8ByteSize = t.offset ∧
      t.kind.Word t.text.toList ∧ ∀ c ∈ after.toList.head?, ¬ t.kind.Word (t.text.toList ++ [c]) := by
    intro t ht
    obtain ⟨pre, post, rfl⟩ := List.append_of_mem ht
    obtain ⟨before, after, htext, hoffset, hword, _⟩ := h.around
    refine ⟨before, after, htext, hoffset, hword.isWord, ?_⟩
    intro c hc hlonger
    obtain ⟨rest, hrest⟩ := List.head?_eq_some_iff.mp hc
    have hlength := hword.longest _ _ hlonger ⟨rest, by simp [hrest]⟩
    simp at hlength
  -- where a character stands in its token, in bytes
  have hplace {before : String} {c : Char} {after : String} (heq : text = before ++ .singleton c ++ after) :
      isBlank c = true ∨ ∃ t ∈ ts, ∃ x y, t.text.toList = x ++ c :: y ∧
        before.utf8ByteSize = t.offset + byteLength x ∧ byteLength x < t.text.utf8ByteSize := by
    have hchars : text.toList = before.toList ++ c :: after.toList := by simp [heq]
    refine (h.place hchars).imp id ?_
    rintro ⟨t, ht, x, y, htext, hoffset⟩
    rw [byteLength_toList, Nat.zero_add] at hoffset
    refine ⟨t, ht, x, y, htext, hoffset, ?_⟩
    rw [← byteLength_toList, htext, byteLength_append]
    exact Nat.lt_add_of_pos_right (byteLength_pos (List.cons_ne_nil _ _))
  constructor
  case ordered => exact h.ordered.2
  case sliced => exact hsliced
  case covered =>
    intro before c after heq
    refine (hplace heq).imp id ?_
    rintro ⟨t, ht, x, y, _, hoffset, hlt⟩
    exact ⟨t, ht, by omega, by omega⟩
  case hyphens =>
    intro before after heq
    rcases hplace (c := '-') heq with hblank | ⟨t, ht, x, y, htext, hoffset, hlt⟩
    · cases hblank
    · obtain ⟨_, _, _, _, hword, _⟩ := hsliced t ht
      obtain ⟨hk, hx⟩ := (htext ▸ hword).of_hyphen
      have hpos := byteLength_pos hx
      exact ⟨t, ht, hk, by omega, by omega⟩

theorem StrayAt.of_reaches {s : Stray} {rest : List Char} (h : Reaches 0 text.toList ts s.offset (s.found :: rest))
    (hblank : isBlank s.found = false) (hnone : ∀ k w, ¬ TokenKind.Word k (s.found :: w)) : StrayAt text s := by
  obtain ⟨before, htext, hoffset, hbefore⟩ := h.before
  refine ⟨⟨.ofList before, .ofList rest, ?_, ?_, ts, ?_⟩, hblank, hnone⟩
  · apply String.toList_inj.mp
    simp [htext]
  · rw [← byteLength_eq, hoffset, Nat.zero_add]
  · rw [tokens, String.toList_ofList]
    exact scanFrom_eq_ok.mpr ⟨_, hbefore⟩

end

/-- The tokens of a text are what scanning for the longest words comes upon, and leave out
nothing but blanks; what it cannot get past is reported with its place. -/
theorem scanning_is_lossless (text : String) :
    (∀ ts, tokens text = .ok ts → Covers text ts) ∧
    (∀ s, tokens text = .error s → StrayAt text s) ∧
    (∀ ts, tokens text = .ok ts ↔ ∃ stop, Reaches 0 text.toList ts stop []) ∧
    ∀ s, tokens text = .error s ↔ ∃ ts rest, Reaches 0 text.toList ts s.offset (s.found :: rest) ∧
      isBlank s.found = false ∧ ∀ k w, ¬ TokenKind.Word k (s.found :: w) := by
  refine ⟨?_, ?_, fun ts => scanFrom_eq_ok, fun s => scanFrom_eq_error⟩
  · intro ts hts
    obtain ⟨stop, h⟩ := scanFrom_eq_ok.mp hts
    exact .of_reaches h
  · intro s hs
    obtain ⟨ts, rest, h, hblank, hnone⟩ := scanFrom_eq_error.mp hs
    exact .of_reaches h hblank hnone

end ViewWiring.Address
