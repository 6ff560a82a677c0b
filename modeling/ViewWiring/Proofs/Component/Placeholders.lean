import Mathlib
import ViewWiring.Proofs.Component.Lifetime
import ViewWiring.Proofs.State.Resolution

namespace ViewWiring.Component

open Address Binding Dispatch State

variable {ν : Type} {d : Definition} {t : HandlerTable ν} {c : Config} {i : Instance ν}

theorem Spec.Supplied.of_pipelineAt {s : Spec} (hs : s.Supplied) {ms : List Member} (hc : s.Compiles ms)
    {r : Selector} {e : EventKind} {p : Pipeline} (hp : s.wiring.pipelineAt r e = some p) {m : Mutation}
    (hm : m ∈ p.mutations) : m.path.placeholders ≤ s.wiring.repeatsAround r := by
  obtain ⟨x, hx, tr, htr, hsite, rfl⟩ := hc.pipelineAt_eq_some.mp hp
  obtain rfl : tr.selector = r := congrArg Prod.fst hsite
  exact hs x hx tr htr m hm

/-- An event that brings an index for each of the repeated scopes around its node
is never rejected for want of one, whatever the state has become. -/
theorem validated_placeholders_resolve (hi : i.Lives d t c) (e : Event) {u : Record ν}
    (hu : u ∈ (i.dispatch e).1)
    (hn : i.spec.wiring.repeatsAround u.report.event.selector ≤
      (suppliedIndices u.report.event.iteration).length) (p : Path) (name : String) :
    u.report.verdict ≠ .rejected (.path ⟨p, .unresolvedIndex name⟩) := by
  intro hv
  rcases hi.stops hu hv with hlimit | ⟨q, hq, st, hst, hstop⟩
  · cases hlimit
  · cases hstop with
    | @path m root _ happly =>
        have hm : m ∈ q.mutations := by simpa using mem_steps.mp hst
        have hsupplied : i.spec.Supplied := (validate_eq_ok.mp hi.keeps.spec).2
        have hcount : m.path.placeholders ≤ (suppliedIndices u.report.event.iteration).length :=
          Nat.le_trans (hsupplied.of_pipelineAt hi.compiles hq hm) hn
        -- nothing is known of the tree `root` but that the mutation failed in it
        exact Mutation.apply_fails root hcount _ happly name rfl

def library : Definition :=
  ⟨"Library", [
    ⟨.field, "mark", some .flag, [⟨.mutation .toggle, some "shelf > book > page", some "books[b].pages[p]"⟩]⟩,
    ⟨.field, "pages", none, [⟨.viewFor, some "shelf > book", none⟩]⟩,
    ⟨.field, "books", some .collection, [⟨.viewFor, some "shelf", none⟩]⟩]⟩

def pageSelector : Selector := ⟨"shelf", ["book", "page"]⟩

def pagePath : Path := ⟨"books", [.placeholder "b", .key "pages", .placeholder "p"]⟩

def librarySpec : Spec :=
  let books : Selector := ⟨"shelf", []⟩
  let pages : Selector := ⟨"shelf", ["book"]⟩
  ⟨"Library", [
    ⟨.field, "mark", some .flag, [.mutation .toggle pagePath pageSelector],
      [⟨pageSelector, .checkboxChange, true, [⟨.toggle, pagePath⟩]⟩]⟩,
    ⟨.field, "pages", some .collection, [.viewFor pages], []⟩,
    ⟨.field, "books", some .collection, [.viewFor books], []⟩],
    ⟨[((pageSelector, .checkboxChange), ⟨"mark", none, [⟨.toggle, pagePath⟩]⟩)],
      [(books, ⟨"books", .key "books"⟩), (pages, ⟨"pages", .key "pages"⟩)]⟩⟩

def libraryBuilt : Instance Empty :=
  ⟨librarySpec, librarySpec.shown, .empty, librarySpec.initialState, .ofConfig .default⟩

def pageChecked (indices : List Nat) : Event := ⟨.checkboxChange, pageSelector, some ⟨indices⟩, .boolean true⟩

/-- The library has no book yet, which is what is wrong with the path. With one
index it would be the second placeholder. -/
theorem library_placeholders_resolve :
    Instance.build library .empty .default = .ok libraryBuilt ∧
    ((libraryBuilt.dispatch (pageChecked [0])).1.map fun u => u.report.verdict) =
      [.rejected (.path ⟨pagePath, .unresolvedIndex "p"⟩)] ∧
    ((libraryBuilt.dispatch (pageChecked [0, 1])).1.map fun u => u.report.verdict) =
      [.rejected (.path ⟨pagePath, .indexOutOfRange 0 0⟩)] ∧
    ∀ u ∈ (libraryBuilt.dispatch (pageChecked [0, 1])).1, ∀ p name,
      u.report.verdict ≠ .rejected (.path ⟨p, .unresolvedIndex name⟩) := by
  have hs : library.validate = .ok librarySpec := by cbv
  have hbuilt : Instance.build library .empty .default = .ok libraryBuilt :=
    Instance.build_eq_ok.mpr ⟨librarySpec, hs, by cbv, rfl⟩
  have hsupplied : ∀ u ∈ (libraryBuilt.dispatch (pageChecked [0, 1])).1,
      librarySpec.wiring.repeatsAround u.report.event.selector ≤
        (suppliedIndices u.report.event.iteration).length := by
    decide
  exact ⟨hbuilt, rfl, rfl, fun u hu p name =>
    validated_placeholders_resolve (.built hbuilt) _ hu (hsupplied u hu) p name⟩

end ViewWiring.Component
