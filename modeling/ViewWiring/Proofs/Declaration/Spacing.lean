import ViewWiring.Declaration.Token

namespace ViewWiring.Declaration

def absolute (names : List String) : List Token :=
  names.flatMap fun name => [.sign ':' true, .sign ':' false, .word name]

def commaSeparated (parts : List (List Token)) : List Token := [Token.sign ',' false].intercalate parts

def bracketed (b : Bracket) (parts : List (List Token)) : List Token :=
  .opening b :: commaSeparated parts ++ [.closing b]

def chained (name : String) (arguments : List (List Token)) : List Token :=
  [.sign '.' false, .word name] ++ bracketed .round arguments

def gap : Option Token → Option Token → String
  | some t, some u => if t.apart u then " " else ""
  | _, _ => ""

theorem spaced_append (ts us : List Token) :
    spaced (ts ++ us) = spaced ts ++ gap ts.getLast? us.head? ++ spaced us := by
  induction ts with
  | nil => simp [spaced, gap]
  | cons t ts ih =>
      cases ts with
      | nil =>
          cases us with
          | nil => simp [spaced, gap]
          | cons u us => simp [spaced, gap]
      | cons t' ts => simpa [spaced, String.append_assoc] using ih

section Text

variable {b : Bracket} {ts us : List Token} {parts : List (List Token)}

theorem gap_opening (hb : b ≠ .curly) (t : Option Token) : gap (some (.opening b)) t = "" := by
  cases b <;> cases t <;> first | rfl | exact absurd rfl hb

theorem gap_closing (hb : b ≠ .curly) (t : Option Token) : gap t (some (.closing b)) = "" := by
  cases b <;> rcases t with _ | ⟨_ | ⟨_, _ | _⟩ | _ | _ | (_ | _ | _) | _⟩ <;>
    first | rfl | exact absurd rfl hb

theorem spaced_bracketed (hb : b ≠ .curly) : spaced (bracketed b parts) =
    b.opener.toString ++ spaced (commaSeparated parts) ++ b.closer.toString := by
  rw [bracketed, ← List.singleton_append, spaced_append, spaced_append]
  simp [gap_opening hb, gap_closing hb, spaced, Token.text]

structure Separable (ts : List Token) : Prop where
  after : gap (some (.sign ',' false)) ts.head? = " "
  before : gap ts.getLast? (some (.sign ',' false)) = " "

namespace Separable

theorem head?_append (h : Separable ts) (us : List Token) : (ts ++ us).head? = ts.head? := by
  cases ts with
  | nil => simpa [gap] using h.after
  | cons t ts => rfl

theorem getLast?_append (h : Separable us) (ts : List Token) : (ts ++ us).getLast? = us.getLast? := by
  cases hus : us.getLast? with
  | none => simpa [hus, gap] using h.before
  | some u => simp [List.getLast?_append, hus]

theorem append (hts : Separable ts) (hus : Separable us) : Separable (ts ++ us) where
  after := (hts.head?_append us).symm ▸ hts.after
  before := (hus.getLast?_append ts).symm ▸ hus.before

theorem head?_commaSeparated (h : Separable ts) (parts : List (List Token)) :
    (commaSeparated (ts :: parts)).head? = ts.head? := by
  cases parts with
  | nil => simp [commaSeparated]
  | cons us parts =>
      rw [commaSeparated, List.intercalate_cons_cons, List.append_assoc]
      exact h.head?_append _

end Separable

theorem spaced_commaSeparated (h : ∀ ts ∈ parts, Separable ts) :
    spaced (commaSeparated parts) = " , ".intercalate (parts.map spaced) := by
  induction parts with
  | nil => rfl
  | cons ts parts ih =>
      cases parts with
      | nil => simp [commaSeparated]
      | cons us parts =>
          have hts := h ts List.mem_cons_self
          have hus := h us (List.mem_cons_of_mem _ List.mem_cons_self)
          have hrest := ih fun vs hvs => h vs (List.mem_cons_of_mem _ hvs)
          have hsplit : commaSeparated (ts :: us :: parts) =
              ts ++ ([.sign ',' false] ++ commaSeparated (us :: parts)) := by
            simp [commaSeparated, List.intercalate_cons_cons]
          have hcomma : spaced [.sign ',' false] = "," := rfl
          rw [hsplit, spaced_append, spaced_append, hrest, hus.head?_commaSeparated, hcomma]
          simp only [List.singleton_append, List.head?_cons, List.getLast?_singleton, hts.before, hus.after,
            List.map_cons, String.intercalate_cons_cons]
          have hliteral : " , " = " " ++ "," ++ " " := rfl
          rw [hliteral]
          simp only [String.append_assoc]

theorem separable_quote (q : Quote) : Separable [.quote q] := ⟨rfl, rfl⟩

theorem separable_bracketed (b : Bracket) (parts : List (List Token)) : Separable (bracketed b parts) where
  after := by cases b <;> rfl
  before := by
    rw [bracketed, List.getLast?_append]
    cases b <;> rfl

theorem spaced_called (ts : List Token) (hts : gap ts.getLast? (some (.opening .round)) = " ")
    (h : ∀ us ∈ parts, Separable us) : spaced (ts ++ bracketed .round parts) =
      spaced ts ++ " (" ++ " , ".intercalate (parts.map spaced) ++ ")" := by
  have hopen : (bracketed .round parts).head? = some (.opening .round) := rfl
  have hparen : Bracket.round.opener.toString = "(" := rfl
  have hclose : Bracket.round.closer.toString = ")" := rfl
  have hliteral : " (" = " " ++ "(" := rfl
  have hround : Bracket.round ≠ .curly := nofun
  rw [spaced_append, hopen, hts, spaced_bracketed hround, spaced_commaSeparated h, hparen, hclose, hliteral]
  simp only [String.append_assoc]

end Text

theorem spaced_absolute (name : String) (names : List String) :
    spaced (absolute (name :: names)) = ":: " ++ " :: ".intercalate (name :: names) := by
  have hone (name : String) : spaced (absolute [name]) = ":: " ++ name := by
    have hparts : spaced (absolute [name]) = ":" ++ "" ++ (":" ++ " " ++ name) := rfl
    simp only [hparts, ← String.append_assoc, String.reduceAppend]
  induction names generalizing name with
  | nil => rw [hone, String.intercalate_singleton]
  | cons name' names ih =>
      have hsplit : absolute (name :: name' :: names) = absolute [name] ++ absolute (name' :: names) := rfl
      have hgap : gap (absolute [name]).getLast? (absolute (name' :: names)).head? = " " := rfl
      have hliteral : " :: " = " " ++ ":: " := rfl
      rw [hsplit, spaced_append, ih, hone, hgap, String.intercalate_cons_cons, hliteral]
      simp only [String.append_assoc]

theorem spaced_chained (name : String) {parts : List (List Token)} (h : ∀ ts ∈ parts, Separable ts) :
    spaced (chained name parts) = ". " ++ name ++ " (" ++ " , ".intercalate (parts.map spaced) ++ ")" := by
  have hname : spaced [.sign '.' false, .word name] = ". " ++ name := rfl
  rw [← hname]
  exact spaced_called [.sign '.' false, .word name] rfl h

theorem getLast?_called (ts : List Token) (parts : List (List Token)) :
    (ts ++ bracketed .round parts).getLast? = some (.closing .round) := by
  rw [bracketed, List.getLast?_append, List.getLast?_append]
  rfl

theorem separable_chained (name : String) (parts : List (List Token)) : Separable (chained name parts) where
  after := rfl
  before := by
    rw [chained, getLast?_called]
    rfl

theorem spaced_append_chained {ts : List Token} (hts : ts.getLast? = some (.closing .round)) (name : String)
    (parts : List (List Token)) :
    spaced (ts ++ chained name parts) = spaced ts ++ " " ++ spaced (chained name parts) := by
  rw [spaced_append, hts]
  rfl

theorem spaced_append_calls {α : Type} {f : α → List Token} (hf : ∀ a, ∃ name parts, f a = chained name parts)
    {ts : List Token} (hts : ts.getLast? = some (.closing .round)) (as : List α) :
    spaced (ts ++ as.flatMap f) = spaced ts ++ String.join (as.map fun a => " " ++ spaced (f a)) := by
  induction as generalizing ts with
  | nil => simp
  | cons a as ih =>
      obtain ⟨name, parts, ha⟩ := hf a
      have hlast : (ts ++ f a).getLast? = some (.closing .round) := by
        rw [ha, chained, ← List.append_assoc, getLast?_called]
      rw [List.flatMap_cons, ← List.append_assoc, ih hlast, List.map_cons, String.join_cons, ha,
        spaced_append_chained hts]
      simp only [String.append_assoc]

end ViewWiring.Declaration
