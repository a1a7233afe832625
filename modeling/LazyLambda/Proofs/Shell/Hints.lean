/-
# LazyLambda.Proofs.Shell.Hints — the hints of a shell are the names of its session.

Names are kept twice: in the scope of a session, and in the hints of whoever is told of its assignments. The
scope also holds the last result, of which nobody is told. Each of the two puts a name in its place in the
order, and so they cannot come apart: `Hints.Tracks` holds of an empty session, every statement that succeeds
keeps it, and whatever is done in a session comes down to such statements (`Session.Performs`).
-/
import LazyLambda.Library.Directory
import LazyLambda.Proofs.Scope
import LazyLambda.Proofs.Session.Loading
import LazyLambda.Proofs.Text.Order
import LazyLambda.Shell.Hints

namespace LazyLambda

/-! ## Names in order -/

section Order

variable {x : String} {names : List String}

/-- A name before all others is put in front of them. -/
theorem insertName_of_lt (h : ∀ y ∈ names, x < y) : insertName x names = x :: names := by
  cases names with
  | nil => rfl
  | cons y rest => rw [insertName, if_pos (h y (List.mem_cons_self ..))]

/-- Leaving out names and putting one in its place can be done in either order. -/
theorem filter_insertName (p : String → Bool) (h : names.Pairwise (· < ·)) :
    (insertName x names).filter p = if p x then insertName x (names.filter p) else names.filter p := by
  induction names with
  | nil => cases hpx : p x <;> simp [insertName, hpx]
  | cons y rest ih =>
      obtain ⟨hy, hrest⟩ := List.pairwise_cons.1 h
      rw [insertName]
      split
      · next hxy =>
          -- the name is before all that are there, and also before those that are not left out
          have hfront : ∀ z ∈ (y :: rest).filter p, x < z := by
            intro z hz
            rcases List.mem_cons.1 (List.mem_filter.1 hz).1 with rfl | hz
            · exact hxy
            · exact String.lt_trans hxy (hy z hz)
          rw [List.filter_cons, insertName_of_lt hfront]
      · next hxy =>
          split
          · next heq =>
              subst heq
              cases hpx : p x with
              | true => simp [hpx, insertName]
              | false => simp [hpx]
          · next hne =>
              rw [List.filter_cons, List.filter_cons, ih hrest]
              cases p y with
              | false => simp
              | true => cases p x <;> simp [insertName, hxy, hne]

end Order

namespace Scope

/-- A scope and hints put a name in the same place. -/
theorem names_set (s : Scope) (x : String) (t : Term) : (s.set x t).names = insertName x s.names :=
  map_fst_insertEntry x t s.entries

/-- The names of a scope are those that are defined. -/
theorem mem_names_iff (s : Scope) (x : String) : x ∈ s.names ↔ (s.get? x).isSome := by
  rw [get?, List.lookup_isSome_iff, names, List.mem_map]
  constructor
  · rintro ⟨e, he, rfl⟩
    exact ⟨e, he, beq_self_eq_true _⟩
  · rintro ⟨e, he, hx⟩
    exact ⟨e, he, (beq_iff_eq.1 hx).symm⟩

end Scope

/-! ## Keeping track -/

/-- The names that a statement assigns are its target, unless it is the last result. -/
theorem Statement.assigned?_eq (st : Statement) :
    st.assigned? = st.target?.filter (· ≠ Session.lastResult) := by
  match st with
  | .define x e =>
      rw [assigned?, target?, Option.filter_some]
      by_cases hx : x = Session.lastResult <;> simp [hx]
  | .bare (.name x) => rfl
  | .bare (.lambda x body) | .bare (.apply f a) => simp [assigned?, target?, Option.filter_some]

/-- `Tracks h s`: the hints are the names of the scope without the last result. -/
def Hints.Tracks (h : Hints) (s : Scope) : Prop := h.names = s.names.filter (· ≠ Session.lastResult)

namespace Hints.Tracks

variable {h : Hints} {s : Scope}

/-- Hints that are told of a definition, if it is not of the last result, keep track. -/
theorem set (hs : h.Tracks s) (x : String) (t : Term) :
    (h.addAll ((some x).filter (· ≠ Session.lastResult)).toList).Tracks (s.set x t) := by
  rw [Tracks, Scope.names_set, filter_insertName _ s.pairwise_names, ← hs, Option.filter_some]
  by_cases hx : x = Session.lastResult <;> simp [hx, addAll]

/-- One statement. -/
theorem exec {s : Session} (hs : h.Tracks s.scope) {st : Statement} {v : Term}
    (hv : (s.exec st).result = .ok v) :
    (h.addAll ((s.exec st).told.map Prod.fst)).Tracks (s.exec st).session.scope := by
  obtain ⟨hscope, htold⟩ := Session.exec_of_ok hv
  have hnames : (s.exec st).told.map Prod.fst = st.assigned?.toList := by
    rw [htold, List.map_map]
    exact List.map_id _
  rw [hnames, hscope, st.assigned?_eq]
  cases st.target? with
  | none => exact hs
  | some x => exact hs.set x v

/-- Statements in turn. -/
theorem yields {s s' : Session} (hs : h.Tracks s.scope) {ss : List Statement} {vs : List Term}
    (hss : s.Yields ss vs s') : (h.addAll ((s.toldBy ss).map Prod.fst)).Tracks s'.scope := by
  induction hss generalizing h with
  | nil s => exact hs
  | cons hv _ ih =>
      rw [Session.toldBy, List.map_append, addAll, List.foldl_append]
      exact ih (hs.exec hv)

end Hints.Tracks

/-! ## Whatever is done in a session -/

namespace Session

/-- `Performs s e`: the effect is that of statements which all succeed, executed in turn from `s` on. Its
result may still be an error, if one more statement has failed. -/
def Performs {ε α : Type} (s : Session) (e : Effect ε α) : Prop :=
  ∃ ss vs, s.Yields ss vs e.session ∧ e.told = s.toldBy ss

theorem performs_nothing {ε α : Type} (s : Session) (result : Except ε α) :
    s.Performs ⟨result, s, []⟩ := ⟨[], [], .nil s, rfl⟩

theorem performs_run (s : Session) (m : Module) : s.Performs (s.run m) := by
  by_cases hm : m.statements = []
  · rw [run_of_empty hm]
    exact s.performs_nothing _
  · rcases s.yields_or_fails m.statements with ⟨vs, s', h⟩ | ⟨done, st, rest, vs, s', err, hst, hdone, herr⟩
    · obtain ⟨-, rfl, htold⟩ := run_of_yields hm h
      exact ⟨_, vs, h, htold⟩
    · obtain ⟨-, rfl, htold⟩ := run_of_failure hst hdone herr
      exact ⟨done, vs, hdone, htold⟩

theorem performs_load (s : Session) (ms : List Module) : s.Performs (s.load ms) := by
  rcases s.failsAt_or_yields ms with ⟨j, k, m, s', err, hfails⟩ | ⟨hms, vs, s', h⟩
  · obtain ⟨-, rfl, htold⟩ := loadFrom_of_failsAt 0 hfails
    obtain ⟨vs, hwork⟩ := hfails.work
    exact ⟨_, vs, hwork, htold⟩
  · obtain ⟨-, rfl, htold⟩ := loadFrom_of_yields 0 hms h
    exact ⟨_, vs, h, htold⟩

theorem performs_sources (s : Session) (sources : List Library.Source) :
    s.Performs (Library.load s sources) := by
  rw [Library.load]
  split
  · exact s.performs_nothing _
  · exact s.performs_load _

theorem performs_directory (s : Session) (v : Files.View) (dir : String) :
    s.Performs (Library.loadDirectory s v dir) := by
  rw [Library.loadDirectory]
  split
  · exact s.performs_nothing _
  · exact s.performs_sources _

/-- What can be done in a session. The sources may be those of the prelude. -/
inductive Task where
  | run (m : Module)
  | load (ms : List Module)
  | sources (sources : List Library.Source)
  | directory (v : Files.View) (dir : String)

/-- A session, and the hints of whoever is told of its assignments. -/
structure Watched where
  session : Session
  hints : Hints

namespace Watched

/-- A session without definitions, and no hints. -/
def new (a : Allowance) : Watched := ⟨.new a, .empty⟩

/-- The session that an effect leaves, and the hints with the names that were assigned on the way. -/
def after {ε α : Type} (w : Watched) (e : Effect ε α) : Watched := ⟨e.session, w.hints.addAll e.assigned⟩

/-- Does something, whether it succeeds or not. -/
def perform (w : Watched) : Task → Watched
  | .run m => w.after (w.session.run m)
  | .load ms => w.after (w.session.load ms)
  | .sources sources => w.after (Library.load w.session sources)
  | .directory v dir => w.after (Library.loadDirectory w.session v dir)

/-- One effect. -/
theorem tracks_after {ε α : Type} {w : Watched} (hw : w.hints.Tracks w.session.scope) {e : Effect ε α}
    (he : w.session.Performs e) : (w.after e).hints.Tracks (w.after e).session.scope := by
  obtain ⟨ss, vs, hss, htold⟩ := he
  rw [after, Effect.assigned_eq_map_told, htold]
  exact hw.yields hss

/-- One task. -/
theorem tracks_perform {w : Watched} (hw : w.hints.Tracks w.session.scope) (task : Task) :
    (w.perform task).hints.Tracks (w.perform task).session.scope := by
  cases task with
  | run m => exact tracks_after hw (w.session.performs_run m)
  | load ms => exact tracks_after hw (w.session.performs_load ms)
  | sources sources => exact tracks_after hw (w.session.performs_sources sources)
  | directory v dir => exact tracks_after hw (w.session.performs_directory v dir)

/-- All tasks. -/
theorem tracks_foldl {w : Watched} (hw : w.hints.Tracks w.session.scope) (tasks : List Task) :
    (tasks.foldl perform w).hints.Tracks (tasks.foldl perform w).session.scope := by
  induction tasks generalizing w with
  | nil => exact hw
  | cons task tasks ih => exact ih (tracks_perform hw task)

theorem tracks_new (a : Allowance) : (new a).hints.Tracks (new a).session.scope := rfl

/-- **Hints track the scope.** Whatever is done in a session that starts empty, and wherever it fails, the
hints are the names of the scope without the last result. Both are in strictly increasing order of their
bytes, and the names of the scope are exactly those that are defined. -/
theorem hints_track_scope (a : Allowance) (tasks : List Task) :
    let w := tasks.foldl perform (new a)
    let byteLess (x y : String) : Prop := (Text.ofString x).bytes < (Text.ofString y).bytes
    w.hints.names = w.session.scope.names.filter (· ≠ lastResult) ∧
      w.hints.names.Pairwise byteLess ∧ w.session.scope.names.Pairwise byteLess ∧
      ∀ x, x ∈ w.session.scope.names ↔ (w.session.scope.get? x).isSome := by
  intro w byteLess
  have htracks : w.hints.Tracks w.session.scope := tracks_foldl (tracks_new a) tasks
  exact ⟨htracks, w.hints.sorted.imp Text.bytes_ofString_lt,
    w.session.scope.pairwise_names.imp Text.bytes_ofString_lt, w.session.scope.mem_names_iff⟩

end Watched

end Session

end LazyLambda
