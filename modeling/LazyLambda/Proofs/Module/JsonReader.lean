/-
# LazyLambda.Proofs.Module.JsonReader — reading JSON texts back.

The reader is a machine that takes one character at a time. Its mode tells strings from what stands
between them, so that no character of a name can pass for structure; its state holds the lists and the
objects that are still open. What a piece of text does to the machine is a relation `Takes` between two
states, which is composed as texts are, and neither layout leaves a trace in it.
-/
import LazyLambda.Module.Json

namespace LazyLambda.Json

/-! ## Values and marks -/

/-- A JSON value, without numbers and truth values. -/
inductive Value where
  | null
  | text (s : String)
  | list (items : List Value)
  | object (fields : List (String × Value))

/-- What a text consists of when blanks and escapes are gone. -/
inductive Mark where
  | sign (c : Char)
  | text (s : String)
  | null

/-! ## Open lists and objects -/

/-- A list or an object that waits for a value. What it has already stands last first. -/
inductive Frame where
  | item (items : List Value)
  | field (fields : List (String × Value)) (name : String)

/-- What the reader has and what may follow. -/
inductive State where
  /-- A value follows. -/
  | value (frames : List Frame)
  /-- The name of a field follows. -/
  | name (fields : List (String × Value)) (frames : List Frame)
  /-- A colon follows. -/
  | colon (fields : List (String × Value)) (name : String) (frames : List Frame)
  /-- A comma follows, or the end of a list. -/
  | afterItem (items : List Value) (frames : List Frame)
  /-- A comma follows, or the end of an object. -/
  | afterField (fields : List (String × Value)) (frames : List Frame)
  /-- Nothing follows. -/
  | done (v : Value)

/-- The state when a value has been read. -/
def complete (v : Value) : List Frame → State
  | [] => .done v
  | .item items :: frames => .afterItem (v :: items) frames
  | .field fields name :: frames => .afterField ((name, v) :: fields) frames

/-- The state after a mark. -/
def State.take : State → Mark → Option State
  | .value frames, .null => some (complete .null frames)
  | .value frames, .text s => some (complete (.text s) frames)
  | .value frames, .sign '[' => some (.value (.item [] :: frames))
  | .value (.item [] :: frames), .sign ']' => some (complete (.list []) frames)
  | .value frames, .sign '\x7b' => some (.name [] frames)
  | .name [] frames, .sign '\x7d' => some (complete (.object []) frames)
  | .name fields frames, .text s => some (.colon fields s frames)
  | .colon fields s frames, .sign ':' => some (.value (.field fields s :: frames))
  | .afterItem items frames, .sign ',' => some (.value (.item items :: frames))
  | .afterItem items frames, .sign ']' => some (complete (.list items.reverse) frames)
  | .afterField fields frames, .sign ',' => some (.name fields frames)
  | .afterField fields frames, .sign '\x7d' => some (complete (.object fields.reverse) frames)
  | _, _ => none

/-! ## Characters -/

/-- Where in a mark the reader stands. The characters of a string stand last first. -/
inductive Mode where
  /-- Between two marks. -/
  | between
  /-- Inside a string. -/
  | inside (chars : List Char)
  /-- Inside a string, after a backslash. -/
  | escape (chars : List Char)
  /-- Inside a string, in the four digits of a character's number. -/
  | number (chars digits : List Char)
  /-- Inside the word `null`, of which some letters are left. -/
  | word (letters : List Char)

/-- Whether a character may stand between two marks without a meaning. -/
def isBlank (c : Char) : Bool := c = ' ' || c = '\n' || c = '\r' || c = '\t'

/-- The value of a hexadecimal digit. -/
def digit? (c : Char) : Option Nat :=
  if c.isDigit then some (c.toNat - '0'.toNat)
  else if 'a' ≤ c ∧ c ≤ 'f' then some (c.toNat - 'a'.toNat + 10)
  else if 'A' ≤ c ∧ c ≤ 'F' then some (c.toNat - 'A'.toNat + 10)
  else none

/-- The number that some hexadecimal digits stand for, behind those of `n`. -/
def number? (n : Nat) (digits : List Char) : Option Nat :=
  digits.foldlM (fun n c => (digit? c).map (16 * n + ·)) n

/-- The character that a letter stands for after a backslash. -/
def unescaped? : Char → Option Char
  | '"' => some '"'
  | '\\' => some '\\'
  | '/' => some '/'
  | 'b' => some '\x08'
  | 'f' => some '\x0c'
  | 'n' => some '\n'
  | 'r' => some '\r'
  | 't' => some '\t'
  | _ => none

/-- One step of the reader. -/
def feed : Mode × State → Char → Option (Mode × State)
  | (.between, st), c =>
    if isBlank c then some (.between, st)
    else if c = '"' then some (.inside [], st)
    else if c = 'n' then some (.word ['u', 'l', 'l'], st)
    else (st.take (.sign c)).map (Prod.mk .between)
  | (.inside cs, st), c =>
    if c = '"' then (st.take (.text (String.ofList cs.reverse))).map (Prod.mk .between)
    else if c = '\\' then some (.escape cs, st)
    else some (.inside (c :: cs), st)
  | (.escape cs, st), c =>
    if c = 'u' then some (.number cs [], st)
    else (unescaped? c).map fun d => (.inside (d :: cs), st)
  | (.number cs digits, st), c =>
    if digits.length = 3 then
      -- the halves of a character above U+FFFF are no characters, and are refused
      (number? 0 (digits ++ [c])).bind fun n =>
        if n.isValidChar then some (.inside (Char.ofNat n :: cs), st) else none
    else some (.number cs (digits ++ [c]), st)
  | (.word letters, st), c =>
    if letters = [c] then (st.take .null).map (Prod.mk .between)
    else if letters.head? = some c then some (.word letters.tail, st)
    else none

/-- The value that a text stands for. -/
def read? (s : String) : Option Value :=
  match s.toList.foldlM feed (.between, .value []) with
  | some (.between, .done v) => some v
  | _ => none

/-! ## Strings -/

theorem digit?_digitChar : ∀ d < 16, digit? (Nat.digitChar d) = some d := by decide

theorem number?_append (n : Nat) (ds es : List Char) :
    number? n (ds ++ es) = (number? n ds).bind (number? · es) := by
  simp [number?, List.foldlM_append]

theorem number?_zeros (k : Nat) : number? 0 (List.replicate k '0') = some 0 := by
  induction k with
  | zero => rfl
  | succ k ih => exact ih

theorem number?_toDigits (n : Nat) : number? 0 (Nat.toDigits 16 n) = some n := by
  induction n using Nat.strongRecOn with
  | ind n ih =>
      by_cases hn : n < 16
      · simp [Nat.toDigits_of_lt_base hn, number?, digit?_digitChar n hn]
      · have hd := digit?_digitChar (n % 16) (Nat.mod_lt n (by decide))
        rw [Nat.toDigits_of_base_le (by decide) (by omega), number?_append,
          ih (n / 16) (Nat.div_lt_self (by omega) (by decide))]
        simp [number?, hd, Nat.div_add_mod]

theorem number?_hex (width n : Nat) : number? 0 (Text.hex width n).toList = some n := by
  simp [Text.hex, number?_append, number?_zeros, number?_toDigits]

theorem length_hex {width n : Nat} (hwidth : 0 < width) (hn : n < Nat.pow 16 width) :
    (Text.hex width n).toList.length = width := by
  have hdigits := (Nat.length_toDigits_le_iff (b := 16) (by decide) hwidth).2 hn
  simp only [Text.hex, String.toList_ofList, List.length_append, List.length_replicate]
  omega

/-- Four digits put the character with their number at the end of a string. -/
theorem feed_digits (cs : List Char) (st : State) {digits : List Char} {c : Char}
    (hlength : digits.length = 4) (hc : number? 0 digits = some c.toNat) :
    digits.foldlM feed (.number cs [], st) = some (.inside (c :: cs), st) := by
  have hvalid : c.toNat.isValidChar := c.valid
  match digits, hlength with
  | [d₁, d₂, d₃, d₄], _ => simp [feed, hc, hvalid]

/-- However a character is written, the reader gets that character. -/
theorem feed_escapedChar (c : Char) (cs : List Char) (st : State) :
    (escapedChar c).toList.foldlM feed (.inside cs, st) = some (.inside (c :: cs), st) := by
  unfold escapedChar
  split
  · rfl
  · rfl
  · rfl
  · rfl
  · rfl
  · rename_i hquote hbackslash _ _ _
    split
    · -- four digits are enough for every character that is written by number
      rename_i hnumber
      have hn : c.toNat < Nat.pow 16 4 := by
        simp only [Bool.or_eq_true, decide_eq_true_eq] at hnumber
        rcases hnumber with ((((h | rfl) | rfl) | rfl) | rfl) | rfl
        · exact Nat.lt_trans h (by decide)
        all_goals decide
      have hstart : "\\u".toList.foldlM feed (.inside cs, st) = some (.number cs [], st) := by
        simp [feed]
      rw [String.toList_append, List.foldlM_append, hstart, Option.bind_eq_bind, Option.bind_some]
      exact feed_digits cs st (length_hex (by decide) hn) (number?_hex 4 c.toNat)
    · -- a character that stands for itself neither ends the string nor starts an escape
      have hq : c ≠ '"' := hquote
      have hb : c ≠ '\\' := hbackslash
      simp [feed, hq, hb]

theorem feed_escaped (s cs : List Char) (st : State) :
    (String.join (s.map escapedChar)).toList.foldlM feed (.inside cs, st) =
      some (.inside (s.reverse ++ cs), st) := by
  induction s generalizing cs with
  | nil => rfl
  | cons c s ih =>
      rw [List.map_cons, String.join_cons, String.toList_append, List.foldlM_append, feed_escapedChar]
      simpa using ih (c :: cs)

/-! ## What a text does to the reader -/

/-- Between two marks, reading `s` leads from one state to the other. -/
def Takes (st : State) (s : String) (st' : State) : Prop :=
  s.toList.foldlM feed (.between, st) = some (.between, st')

theorem takes_empty (st : State) : Takes st "" st := rfl

theorem Takes.append {st st' st'' : State} {s t : String} (hs : Takes st s st') (ht : Takes st' t st'') :
    Takes st (s ++ t) st'' := by
  unfold Takes
  rw [String.toList_append, List.foldlM_append, hs]
  exact ht

theorem takes_blanks (st : State) {cs : List Char} (hcs : ∀ c ∈ cs, isBlank c = true) :
    Takes st (String.ofList cs) st := by
  unfold Takes
  rw [String.toList_ofList]
  induction cs with
  | nil => rfl
  | cons c cs ih =>
      have hc : feed (.between, st) c = some (.between, st) := by simp [feed, hcs c (by simp)]
      rw [List.foldlM_cons, hc]
      exact ih fun d hd => hcs d (List.mem_cons_of_mem c hd)

theorem takes_sign {st st' : State} {c : Char} (hc : isBlank c = false ∧ c ≠ '"' ∧ c ≠ 'n')
    (h : st.take (.sign c) = some st') : Takes st (String.ofList [c]) st' := by
  simp [Takes, feed, hc, h]

theorem takes_null {st st' : State} (h : st.take .null = some st') : Takes st "null" st' := by
  simp [Takes, feed, isBlank, h]

/-- **A string does what its characters say**, whatever they are. -/
theorem takes_ofString {st st' : State} {s : String} (h : st.take (.text s) = some st') :
    Takes st (ofString s) st' := by
  have hstart : "\"".toList.foldlM feed (.between, st) = some (.inside [], st) := by
    simp [feed, isBlank]
  unfold Takes ofString
  rw [String.toList_append, String.toList_append, List.foldlM_append, List.foldlM_append, hstart,
    Option.bind_eq_bind, Option.bind_some, feed_escaped]
  simp [feed, h]

theorem takes_lineBreak (l : Layout) (depth : Nat) (st : State) : Takes st (l.lineBreak depth) st := by
  cases l with
  | compact => exact takes_empty st
  | indented =>
      have hbreak : Takes st (String.ofList ['\n']) st := takes_blanks st (by simp [isBlank])
      refine hbreak.append (takes_blanks st ?_)
      intro c hc
      rw [List.eq_of_mem_replicate hc]
      rfl

theorem takes_colon (l : Layout) {st st' : State} (h : st.take (.sign ':') = some st') :
    Takes st l.colon st' := by
  have hcolon : Takes st (String.ofList [':']) st' := takes_sign (by decide) h
  cases l with
  | compact => exact hcolon
  | indented => exact hcolon.append (t := String.ofList [' ']) (takes_blanks st' (by simp [isBlank]))

/-! ## Brackets -/

/-- Parts that add to what there is, with texts between them that add nothing, add one after the
other. -/
theorem takes_intercalate {α : Type} {sep : String} {before after : List α → State}
    (hsep : ∀ xs, Takes (after xs) sep (before xs)) (p : String × α) (ps : List (String × α))
    (hparts : ∀ q ∈ p :: ps, ∀ xs, Takes (before xs) q.1 (after (q.2 :: xs))) (xs : List α) :
    Takes (before xs) (String.intercalate sep ((p :: ps).map Prod.fst))
      (after (((p :: ps).map Prod.snd).reverse ++ xs)) := by
  induction ps generalizing p xs with
  | nil => simpa using hparts p (by simp) xs
  | cons q ps ih =>
      have hfirst := hparts p (by simp) xs
      have hrest := ih q (fun r hr => hparts r (List.mem_cons_of_mem p hr)) (p.2 :: xs)
      have h := (hfirst.append (hsep _)).append hrest
      simpa [String.intercalate_cons_cons] using h

/-- The text `s` stands for the value `v`, wherever a value may stand. -/
def Writes (s : String) (v : Value) : Prop :=
  ∀ frames, Takes (.value frames) s (complete v frames)

theorem writes_ofString (s : String) : Writes (ofString s) (.text s) := fun _ => takes_ofString rfl

theorem writes_null : Writes "null" .null := fun _ => takes_null rfl

/-- What stands between two brackets. Only the signs matter; the line breaks of the layout do not. -/
theorem takes_bracket (l : Layout) (depth : Nat) {α : Type} (before after : List α → State)
    {st st' : State} {left right : Char} {parts : List (String × α)}
    (hleft : Takes st (String.ofList [left]) (before []))
    (hcomma : ∀ xs, Takes (after xs) (String.ofList [',']) (before xs))
    (hparts : ∀ q ∈ parts, ∀ xs, Takes (before xs) q.1 (after (q.2 :: xs)))
    (hempty : parts = [] → Takes (before []) (String.ofList [right]) st')
    (hright : Takes (after (parts.map Prod.snd).reverse) (String.ofList [right]) st') :
    Takes st (l.bracket depth (String.ofList [left]) (String.ofList [right]) (parts.map Prod.fst)) st' := by
  have hopen := hleft.append (takes_lineBreak l (depth + 1) _)
  cases parts with
  | nil => exact ((hopen.append (takes_empty _)).append (takes_lineBreak l depth _)).append (hempty rfl)
  | cons p ps =>
      have hsep := fun xs => (hcomma xs).append (takes_lineBreak l (depth + 1) _)
      have hall := takes_intercalate hsep p ps hparts []
      rw [List.append_nil] at hall
      exact ((hopen.append hall).append (takes_lineBreak l depth _)).append hright

theorem writes_list (l : Layout) (depth : Nat) (parts : List (String × Value))
    (hparts : ∀ p ∈ parts, Writes p.1 p.2) :
    Writes (l.bracket depth "[" "]" (parts.map Prod.fst)) (.list (parts.map Prod.snd)) := by
  intro frames
  refine takes_bracket l depth (fun vs => .value (.item vs :: frames)) (fun vs => .afterItem vs frames)
    ?_ ?_ ?_ ?_ ?_
  · exact takes_sign (by decide) rfl
  · exact fun vs => takes_sign (by decide) rfl
  · exact fun p hp vs => hparts p hp (.item vs :: frames)
  · rintro rfl
    exact takes_sign (by decide) rfl
  · refine takes_sign (by decide) ?_
    simp [State.take]

/-- A field adds its name with its value to the object. -/
theorem takes_field (l : Layout) {value : String} {v : Value} (h : Writes value v) (name : String)
    (fields : List (String × Value)) (frames : List Frame) :
    Takes (.name fields frames) (l.field name value) (.afterField ((name, v) :: fields) frames) := by
  have hname : State.take (.name fields frames) (.text name) = some (.colon fields name frames) := by
    cases fields <;> rfl
  exact ((takes_ofString hname).append (takes_colon l rfl)).append (h (.field fields name :: frames))

theorem writes_object (l : Layout) (depth : Nat) (fields : List (String × String × Value))
    (hfields : ∀ f ∈ fields, Writes f.2.1 f.2.2) :
    Writes (l.object depth (fields.map fun f => (f.1, f.2.1)))
      (.object (fields.map fun f => (f.1, f.2.2))) := by
  intro frames
  let parts := fields.map fun f => (l.field f.1 f.2.1, f.1, f.2.2)
  have hparts : ∀ p ∈ parts, ∀ done,
      Takes (.name done frames) p.1 (.afterField (p.2 :: done) frames) := by
    intro p hp done
    obtain ⟨f, hf, rfl⟩ := List.mem_map.1 hp
    exact takes_field l (hfields f hf) f.1 done frames
  have hbracket : Takes (.value frames) (l.bracket depth "\x7b" "\x7d" (parts.map Prod.fst))
      (complete (.object (parts.map Prod.snd)) frames) := by
    refine takes_bracket l depth (fun done => .name done frames) (fun done => .afterField done frames)
      ?_ ?_ hparts ?_ ?_
    · exact takes_sign (by decide) rfl
    · exact fun done => takes_sign (by decide) rfl
    · intro hnil
      rw [hnil]
      exact takes_sign (by decide) rfl
    · refine takes_sign (by decide) ?_
      simp [State.take]
  simpa [parts, Layout.object, Function.comp_def] using hbracket

/-- A text that stands for a value is read as that value. -/
theorem Writes.read?_eq {s : String} {v : Value} (h : Writes s v) : read? s = some v := by
  unfold read?
  rw [h []]
  rfl

end LazyLambda.Json
