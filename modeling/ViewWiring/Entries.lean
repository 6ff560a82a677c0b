namespace ViewWiring

/-- Values under keys, in the order in which the keys came. -/
abbrev Entries (κ α : Type) := List (κ × α)

namespace Entries

variable {κ α : Type} [DecidableEq κ]

def get? : Entries κ α → κ → Option α
  | [], _ => none
  | (k, a) :: es, key => if k = key then some a else get? es key

def put : Entries κ α → κ → α → Entries κ α
  | [], key, a => [(key, a)]
  | (k, b) :: es, key, a => if k = key then (k, a) :: es else (k, b) :: put es key a

def erase (es : Entries κ α) (key : κ) : Entries κ α := es.filter fun e => e.1 ≠ key

def contains (es : Entries κ α) (key : κ) : Bool := (es.get? key).isSome

def putAll (es new : Entries κ α) : Entries κ α :=
  new.foldl (fun acc e => acc.put e.1 e.2) es

def keys (es : Entries κ α) : List κ := es.map Prod.fst

theorem get?_put_self (es : Entries κ α) (key : κ) (a : α) : (es.put key a).get? key = some a := by
  induction es with
  | nil => simp [put, get?]
  | cons e es ih =>
      obtain ⟨k, b⟩ := e
      by_cases h : k = key
      · simp [put, get?, h]
      · simpa [put, get?, h] using ih

theorem get?_put_of_ne (es : Entries κ α) {key other : κ} (a : α) (hne : other ≠ key) :
    (es.put key a).get? other = es.get? other := by
  induction es with
  | nil => simp [put, get?, hne.symm]
  | cons e es ih =>
      obtain ⟨k, b⟩ := e
      by_cases h : k = key
      · subst k
        simp [put, get?, hne.symm]
      · by_cases ho : k = other
        · simp [put, get?, ho, hne]
        · simp [put, get?, h, ho, ih]

theorem put_of_get? {es : Entries κ α} {key : κ} {a : α} (h : es.get? key = some a) :
    es.put key a = es := by
  induction es with
  | nil => simp [get?] at h
  | cons e es ih =>
      obtain ⟨k, b⟩ := e
      by_cases hk : k = key
      · simp_all [put, get?]
      · simp only [get?, hk, if_false] at h
        simp [put, hk, ih h]

theorem put_put (es : Entries κ α) (key : κ) (a b : α) : (es.put key a).put key b = es.put key b := by
  induction es with
  | nil => simp [put]
  | cons e es ih =>
      obtain ⟨k, c⟩ := e
      by_cases h : k = key <;> simp [put, h, ih]

theorem keys_put (es : Entries κ α) (key : κ) (a : α) :
    (es.put key a).keys = if key ∈ es.keys then es.keys else es.keys ++ [key] := by
  induction es with
  | nil => rfl
  | cons e es ih =>
      obtain ⟨k, b⟩ := e
      simp only [keys] at ih
      by_cases h : k = key
      · simp [put, keys, h]
      · by_cases hes : key ∈ es.map Prod.fst <;> simp [put, keys, h, Ne.symm h, ih, hes]

theorem get?_erase_self (es : Entries κ α) (key : κ) : (es.erase key).get? key = none := by
  induction es with
  | nil => simp [erase, get?]
  | cons e es ih =>
      obtain ⟨k, b⟩ := e
      by_cases h : k = key
      · simpa [erase, h] using ih
      · simpa [erase, get?, h] using ih

theorem get?_erase_of_ne (es : Entries κ α) {key other : κ} (hne : other ≠ key) :
    (es.erase key).get? other = es.get? other := by
  induction es with
  | nil => simp [erase, get?]
  | cons e es ih =>
      obtain ⟨k, b⟩ := e
      by_cases h : k = key
      · subst k
        simpa [erase, get?, hne.symm] using ih
      · by_cases ho : k = other
        · simp [erase, get?, ho, hne]
        · simpa [erase, get?, h, ho] using ih

def insertBy (cmp : κ → κ → Ordering) (es : Entries κ α) (key : κ) (a : α) : Entries κ α :=
  es.takeWhile (fun e => (cmp e.1 key).isLT) ++ (key, a) :: es.dropWhile (fun e => (cmp e.1 key).isLT)

end Entries

end ViewWiring
