/-
# LazyLambda.Proofs.Module.Faults — reading ends, and its faults are in order.

A fault is about the first of the tokens that an attempt has left, and the next attempt starts behind the end of
their line. So the tokens that faults are about are some of the tokens of the text, in the same order and none of
them twice (`found_sublist`), the end of the input included; and those stand one behind the other.

How attempts and faults belong together is seen in the loop that reads with one list of faults
(`Proofs.Module.Recording`): the list stays empty exactly if every attempt keeps its statement.
-/
import LazyLambda.Proofs.Module.Recording
import LazyLambda.Proofs.Token.Cursor
import LazyLambda.Proofs.Token.Positions

namespace LazyLambda.Parser

variable {stop : Position}

/-! ## Faults in order -/

/-- What is left from the next line on is left behind the first token. -/
theorem dropWhile_nextLine_suffix (u : Token) (rest : List Token) :
    (nextLine (u :: rest)).dropWhile Token.isNewline <:+ rest := by
  cases hu : u.isNewline with
  | true =>
      simp only [nextLine, List.dropWhile_cons, hu, Bool.not_true, Bool.false_eq_true, if_false, if_true]
      exact List.dropWhile_suffix _
  | false =>
      simp only [nextLine, List.dropWhile_cons, hu, Bool.not_false, if_true]
      exact (List.dropWhile_suffix _).trans (List.dropWhile_suffix _)

/-- The tokens that the faults of some attempts are about. -/
def founds (as : List Attempt) : List Token := (as.filterMap Attempt.fault?).map Fault.found

/-- The fault of an attempt is about the first of the tokens that it has left. -/
theorem found_of_attempt {ts : List Token} {r : Result Statement ts} {f : Fault}
    (h : attempt stop r = .error f) : f.found = r.rest.headD (.eof stop) := by
  match r with
  | .error c rest hs =>
      cases h
      rfl
  | .ok s [] hs => cases h
  | .ok s (t :: rest) hs =>
      rw [attempt] at h
      split at h
      · cases h
      · cases h
        rfl

/-- **Faults are about different tokens, in the order of the text.** Ends of lines in front of the first
statement are left out, since nothing can be wrong with them. -/
theorem founds_sublist (stop : Position) (ts : List Token) :
    (founds (attempts stop ts)).Sublist (ts.dropWhile Token.isNewline ++ [.eof stop]) := by
  fun_induction attempts stop ts with
  | case1 => exact List.nil_sublist _
  | case2 t r ht ih =>
      rw [List.dropWhile_cons, if_pos ht]
      exact ih
  | case3 t r ht read ih =>
      rw [List.dropWhile_cons, if_neg ht]
      have hrest : read.rest <:+ t :: r := read.rest_suffix
      have hlater : ∀ us : List Token, (nextLine read.rest).dropWhile Token.isNewline <:+ us →
          (founds (attempts stop (nextLine read.rest))).Sublist (us ++ [.eof stop]) :=
        fun us hus => ih.trans (hus.sublist.append (List.Sublist.refl _))
      cases ha : attempt stop read with
      | ok s =>
          exact hlater _ (((List.dropWhile_suffix _).trans (List.dropWhile_suffix _)).trans hrest)
      | error f =>
          have hfounds : founds (.error f :: attempts stop (nextLine read.rest)) =
              read.rest.headD (.eof stop) :: founds (attempts stop (nextLine read.rest)) := by
            rw [← found_of_attempt ha]
            rfl
          rw [hfounds]
          cases hleft : read.rest with
          | nil =>
              -- the fault is about the end of the input, and nothing is left to attempt
              have hnone : founds (attempts stop (nextLine [])) = [] := by
                rw [nextLine, List.dropWhile_nil, attempts]
                rfl
              rw [hnone]
              exact List.sublist_append_right _ _
          | cons u rest =>
              rw [hleft] at hrest hlater
              have hbehind := hlater rest (dropWhile_nextLine_suffix u rest)
              exact (hbehind.cons_cons u).trans (hrest.sublist.append (List.Sublist.refl _))

theorem found_sublist (l : Lexed) : ((readTokens l).faults.map Fault.found).Sublist l.all := by
  rw [readTokens, reading]
  split
  · exact List.sublist_append_right _ _
  · have hdrop := (List.dropWhile_suffix (l := l.tokens) Token.isNewline).sublist
    exact (founds_sublist l.stop l.tokens).trans (hdrop.append (List.Sublist.refl _))

/-- **Faults stand one behind the other.** -/
theorem pairwise_faults (t : Text) :
    (read t).faults.Pairwise fun f g => f.found.pos.Before g.found.pos := by
  have hfound : ((read t).faults.map Fault.found).Pairwise fun a b => a.pos.Before b.pos :=
    (Lexed.pairwise_before .start t).sublist (found_sublist (.ofText t))
  rwa [List.pairwise_map] at hfound

/-! ## Faults and dropped statements -/

namespace Progress

/-- Whether every attempt of the loop keeps its statement. -/
def KeepsAll (stop : Position) (p : Progress) : Prop :=
  ∀ k, (p.after stop k).AtStatement → (p.after stop (k + 1)).statements ≠ (p.after stop k).statements

variable {p : Progress}

/-- A loop that keeps every statement writes no fault. -/
theorem KeepsAll.faults_eq (h : p.KeepsAll stop) (k : Nat) : (p.after stop k).faults = p.faults := by
  induction k with
  | zero => rfl
  | succ k ih =>
      have hkept := h k
      rw [after_succ] at hkept ⊢
      by_cases hat : (p.after stop k).AtStatement
      · cases pass_atStatement stop hat with
        | kept s _ _ hfaults => rw [hfaults, ih]
        | dropped f _ hstatements _ => exact (hkept hat hstatements).elim
      · rw [(pass_not_atStatement stop hat).2, ih]

/-- A loop that ends without a fault has kept every statement. -/
theorem keepsAll_of_no_fault (h : (p.finished stop).faults = []) : p.KeepsAll stop := by
  intro k hat
  -- what is written at one turn is still there at the end
  have hprefix : (p.after stop (k + 1)).faults <+: [] := by
    have hlast := after_eq_finished stop p (Nat.le_add_left p.tokens.length (k + 1))
    rw [after_add] at hlast
    rw [← h, ← hlast]
    exact faults_prefix stop _ _
  rw [after_succ] at hprefix ⊢
  cases pass_atStatement stop hat with
  | kept s _ hstatements _ =>
      rw [hstatements]
      exact fun heq => by simpa using congrArg List.length heq
  | dropped f _ _ hfaults =>
      rw [hfaults] at hprefix
      simpa using hprefix.length_le

end Progress

/-- **There is no fault exactly if there are statements and none was dropped.** -/
theorem faults_eq_nil_iff (l : Lexed) : (readTokens l).faults = [] ↔
    (readTokens l).statements ≠ [] ∧ (Progress.start l.tokens).KeepsAll l.stop := by
  let p := Progress.start l.tokens
  have hlast : p.after l.stop l.tokens.length = p.finished l.stop :=
    Progress.after_eq_finished l.stop p (Nat.le_refl _)
  have hreading : (p.finished l.stop).reading l.stop = readTokens l :=
    hlast ▸ reading_after l (Nat.le_refl _)
  by_cases hnone : (p.finished l.stop).statements = [] ∧ (p.finished l.stop).faults = []
  · -- the module is empty, which is a fault by itself
    have hempty : readTokens l = ⟨[], [fault l.stop .emptyModule []]⟩ := by
      rw [← hreading, Progress.reading, hnone.1, hnone.2]
      rfl
    rw [hempty]
    simp
  · rw [Progress.reading_of_collected hnone] at hreading
    rw [← hreading]
    constructor
    · intro hfaults
      exact ⟨fun hstatements => hnone ⟨hstatements, hfaults⟩, Progress.keepsAll_of_no_fault hfaults⟩
    · rintro ⟨-, hkeeps⟩
      show (p.finished l.stop).faults = p.faults
      rw [← hlast]
      exact hkeeps.faults_eq l.tokens.length

/-! ## Reading texts -/

/-- How far reading a text has come after so many turns of the loop. -/
def progress (t : Text) (k : Nat) : Progress :=
  (Progress.start (Lexed.ofText t).tokens).after (Lexed.ofText t).stop k

theorem progress_succ (t : Text) (k : Nat) : progress t (k + 1) = (progress t k).pass (Lexed.ofText t).stop :=
  Progress.after_succ _ _ k

theorem tokens_progress (t : Text) {k : Nat} (hk : (Lexed.ofText t).tokens.length ≤ k) :
    (progress t k).tokens = [] := by
  rw [progress, Progress.after_eq_finished _ _ hk]
  rfl

/-- **Reading ends on every input, with its faults in order.** A cursor that is asked for one token after the other
comes to the end of the input after no more of them than there are bytes, and stays there. The loop over the
statements, which writes all that is wrong to one list, is then at its end as well, and has read what the text is
read as. The faults stand one behind the other. Each attempt at a statement either adds the statement and no fault,
or drops it and adds one fault. And there is no fault exactly if there are statements and none was dropped. -/
theorem reading_ends_with_ordered_faults (bs : List UInt8) :
    (∃ n ≤ bs.length, (∀ i, ((Cursor.start (.ofBytes bs)).token i).kind = .eof ↔ n ≤ i) ∧
      (Lexed.ofText (.ofBytes bs)).tokens = (List.range n).map (Cursor.start (.ofBytes bs)).token ∧
      ∀ k, n ≤ k → (progress (.ofBytes bs) k).tokens = [] ∧
        (progress (.ofBytes bs) k).reading (Lexed.ofText (.ofBytes bs)).stop = read (.ofBytes bs)) ∧
    ((read (.ofBytes bs)).faults.Pairwise fun f g => f.found.pos.Before g.found.pos) ∧
    (∀ k, (progress (.ofBytes bs) k).AtStatement →
      (progress (.ofBytes bs) k).Attempted (Lexed.ofText (.ofBytes bs)).stop (progress (.ofBytes bs) (k + 1))) ∧
    ((read (.ofBytes bs)).faults = [] ↔ (read (.ofBytes bs)).statements ≠ [] ∧
      ∀ k, (progress (.ofBytes bs) k).AtStatement →
        (progress (.ofBytes bs) (k + 1)).statements ≠ (progress (.ofBytes bs) k).statements) := by
  obtain ⟨n, hle, hends, htokens⟩ := Cursor.ends bs
  refine ⟨⟨n, hle, hends, htokens, fun k hk => ?_⟩, pairwise_faults _, ?_, faults_eq_nil_iff (.ofText _)⟩
  · have hlength : (Lexed.ofText (.ofBytes bs)).tokens.length ≤ k := by
      have hn : (Lexed.ofText (.ofBytes bs)).tokens.length = n :=
        (congrArg List.length htokens).trans (by rw [List.length_map, List.length_range])
      omega
    exact ⟨tokens_progress _ hlength, reading_after _ hlength⟩
  · intro k hat
    rw [progress_succ]
    exact Progress.pass_atStatement _ hat

/-- The text `(\`, `)`, `x`, `(` on four lines: the first statement goes on behind its line and is dropped, the
second is kept, and the third breaks off at the end. -/
theorem reading_ends_with_ordered_faults_recovered :
    let bs : List UInt8 := [0x28, 0x5C, 0x0A, 0x29, 0x0A, 0x78, 0x0A, 0x28]
    let l := Lexed.ofText (.ofBytes bs)
    let p := progress (.ofBytes bs)
    let r := read (.ofBytes bs)
    r.statements = [.bare (.name "x")] ∧
      r.faults.map (fun f => (f.complaint, f.found.pos)) = [(.noParameter, ⟨2, 1⟩), (.noExpression, ⟨4, 2⟩)] ∧
      (r.faults.Pairwise fun f g => f.found.pos.Before g.found.pos) ∧
      (p 8).tokens = [] ∧ (p 8).reading l.stop = r ∧
      ∃ f, (p 1).statements = [] ∧ (p 1).faults = [f] := by
  intro bs l p r
  obtain ⟨⟨n, hn, -, -, hloop⟩, horder, hturn, -⟩ := reading_ends_with_ordered_faults bs
  obtain ⟨htokens, hreading⟩ := hloop 8 hn
  refine ⟨by decide +kernel, by decide +kernel, horder, htokens, hreading, ?_⟩
  have hat : (p 0).AtStatement := ⟨⟨.lparen, "(", ⟨1, 1⟩⟩, l.tokens.tail, by decide +kernel, rfl⟩
  cases hturn 0 hat with
  | kept s hok _ _ =>
      have herror : (attempt l.stop (statement (p 0).tokens)).isOk = false := by decide +kernel
      rw [hok] at herror
      cases herror
  | dropped f _ hstatements hfaults => exact ⟨f, hstatements, hfaults⟩

end LazyLambda.Parser
