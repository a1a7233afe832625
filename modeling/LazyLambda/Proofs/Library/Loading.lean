/-
# LazyLambda.Proofs.Library.Loading — sources are loaded all or not at all.

A source may be broken at any place, and its reader still keeps the statements that are not. None of them is
executed, nor is any of the sources before it, although these parse: all sources are read before the first
module runs. `Library.parse_eq` says what reading them comes to: the modules of all of them, or the first
that is broken.
-/
import LazyLambda.Library.Directory
import LazyLambda.Proofs.Library.Prelude

namespace LazyLambda

theorem Effect.mapError_mapError {ε ε' ε'' α : Type} (f : ε → ε') (g : ε' → ε'') (e : Effect ε α) :
    (e.mapError f).mapError g = e.mapError fun err => g (f err) := by
  obtain ⟨result, session, events⟩ := e
  cases result with
  | ok a => rfl
  | error err => rfl

namespace Library

/-! ## Broken sources -/

namespace Source

/-- What is wrong with the text of a source. -/
def faults (src : Source) : List Fault := (Parser.read src.text).faults

/-- Whether a source does not parse. -/
def isBroken (src : Source) : Bool := !src.faults.isEmpty

/-- The module of a source, under the name of the source: the statements that could be read. -/
def module (src : Source) : Module := ⟨src.name, (Parser.read src.text).statements⟩

theorem parse_eq (src : Source) :
    Parser.parse src.name src.text = if src.isBroken then .error src.faults else .ok src.module := by
  rw [Parser.parse, isBroken, faults, module]
  cases (Parser.read src.text).faults with
  | nil => rfl
  | cons f fs => rfl

end Source

/-- Reading sources comes to the first that is broken, or to the modules of all of them. -/
theorem parse_eq (sources : List Source) :
    parse sources = match sources.find? Source.isBroken with
      | some src => .error (.unparsable src.name src.faults)
      | none => .ok (sources.map Source.module) := by
  induction sources with
  | nil => rfl
  | cons src rest ih =>
      rw [parse, src.parse_eq, List.find?_cons, ih]
      cases src.isBroken with
      | true => rfl
      | false =>
          -- a source that parses adds its module, if those behind it parse too
          cases rest.find? Source.isBroken with
          | some broken => rfl
          | none => rfl

theorem find?_isBroken_prelude : prelude.find? Source.isBroken = none := by
  obtain ⟨ms, hms, -⟩ := parse_prelude
  rw [parse_eq] at hms
  cases h : prelude.find? Source.isBroken with
  | none => rfl
  | some src =>
      rw [h] at hms
      cases hms

/-! ## Loading -/

/-- `AllOrNothing s sources wrap e`: the effect `e` on a session is that of loading the modules of all the
sources in order, if no source is broken. Otherwise it is nothing but an error, which names the first broken
source and holds what is wrong with it. Errors are wrapped. -/
structure AllOrNothing {ε : Type} (s : Session) (sources : List Source) (wrap : Error → ε)
    (e : Effect ε Unit) : Prop where
  nothing : ∀ src, sources.find? Source.isBroken = some src →
    e = ⟨.error (wrap (.unparsable src.name src.faults)), s, []⟩
  all : sources.find? Source.isBroken = none →
    e = (s.load (sources.map Source.module)).mapError fun err => wrap (.unloadable err)

theorem allOrNothing_load (s : Session) (sources : List Source) :
    AllOrNothing s sources id (load s sources) := by
  constructor
  · intro src hsrc
    rw [load, parse_eq, hsrc]
    rfl
  · intro hnone
    rw [load, parse_eq, hnone]
    rfl

theorem AllOrNothing.mapError {ε ε' : Type} {s : Session} {sources : List Source} {wrap : Error → ε}
    {e : Effect ε Unit} (h : AllOrNothing s sources wrap e) (f : ε → ε') :
    AllOrNothing s sources (fun err => f (wrap err)) (e.mapError f) := by
  constructor
  · intro src hsrc
    rw [h.nothing src hsrc]
    rfl
  · intro hnone
    rw [h.all hnone]
    exact Effect.mapError_mapError _ f _

/-- **Loading is all or nothing with respect to syntax.** A source parses unless it is broken. If one of the
sources is broken, the session is left as it was, nothing is executed or told, and the error names the first
such source with its own faults. If none is, loading the sources is loading their modules in order, each
under the name of its source.

The same holds of a directory that can be read, for the sources in it; one that cannot be read leaves the
session as it was too. No source of the prelude is broken. -/
theorem loading_is_all_or_nothing (s : Session) :
    (∀ src : Source, Parser.parse src.name src.text =
        if src.isBroken then .error src.faults else .ok src.module) ∧
      (∀ sources, AllOrNothing s sources id (load s sources)) ∧
      prelude.find? Source.isBroken = none ∧
      ∀ (v : Files.View) (dir : String),
        (∀ err, readDirectory v dir = .error err → loadDirectory s v dir = ⟨.error err, s, []⟩) ∧
          ∀ sources, readDirectory v dir = .ok sources →
            AllOrNothing s sources DirectoryError.unloadable (loadDirectory s v dir) := by
  refine ⟨Source.parse_eq, allOrNothing_load s, find?_isBroken_prelude, fun v dir => ⟨?_, ?_⟩⟩
  · intro err herr
    rw [loadDirectory, herr]
  · intro sources hread
    rw [loadDirectory, hread]
    exact (allOrNothing_load s sources).mapError DirectoryError.unloadable

/-- Of three modules in a directory the first defines a name, and the others are broken. The second keeps a
statement in front of its fault. -/
theorem loading_is_all_or_nothing_broken_directory :
    let first : Source := ⟨"lib/1.lc", "id = \\x x".toList.map .char⟩
    let second : Source := ⟨"lib/2.lc", "k = id\nx = )".toList.map .char⟩
    let third : Source := ⟨"lib/10.lc", "(".toList.map .char⟩
    let v : Files.View := {
      isDirectory := fun _ => .ok true
      list := fun _ => .ok [("1.lc", false), ("10.lc", false), ("2.lc", false), ("notes", false)]
      read := fun path => .ok (([first, second, third].find? (·.name = path)).elim [] Source.text) }
    let s := Session.new (.ofBound 5)
    readDirectory v "lib" = .ok [first, second, third] ∧
      [first, second, third].find? Source.isBroken = some second ∧
      second.module.statements = [.define "k" (.name "id")] ∧
      loadDirectory s v "lib" =
        ⟨.error (.unloadable (.unparsable "lib/2.lc" [⟨.noExpression, ⟨.rparen, ")", ⟨2, 5⟩⟩⟩])), s, []⟩ := by
  -- a literal is the string of its characters, which saves decoding it
  repeat rw [String.toList_ofList]
  intro first second third v s
  have hread : readDirectory v "lib" = .ok [first, second, third] := eq_ok_of_toOption (by decide +kernel)
  have hbroken : [first, second, third].find? Source.isBroken = some second := by decide +kernel
  have hfaults : second.faults = [⟨.noExpression, ⟨.rparen, ")", ⟨2, 5⟩⟩⟩] := by decide +kernel
  obtain ⟨-, -, -, hdirectory⟩ := loading_is_all_or_nothing s
  have hload := ((hdirectory v "lib").2 _ hread).nothing second hbroken
  rw [hfaults] at hload
  exact ⟨hread, hbroken, by decide +kernel, hload⟩

end Library

end LazyLambda
