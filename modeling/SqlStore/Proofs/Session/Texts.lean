import SqlStore.Proofs.Numeral
import SqlStore.Proofs.Session.Refinement
import SqlStore.Proofs.Statement.Recognition
import SqlStore.Proofs.Token.Sizes

/-! # Texts and the database without bytes

A session that is given texts one after the other answers as the database without bytes does:

* **`Statement.Fits`** and **`Statement.Unsigned`** — statements with parts that can be stored, and
  without negative integers. `fits_of_parseText` and `unsigned_of_parseText` say that the statements of
  a text are such;
* **`Database.executeText`** — the statements of a text, up to the first that fails;
* **`Database.CanCountTexts`** — the rows can be counted after every statement of the texts;
* **`Session.outcomes`** and **`Database.outcomes`** — one outcome for each text;
* **`Session.outcomes_refine`** — the outcomes of a session have the answers of the database, and their
  stores store what the database has become. -/

namespace SqlStore

/-! ## Statements of a text -/

/-- Whether the parts of a statement can be stored: names and strings are written in full, and numerals
can be read. -/
def Statement.Fits : Statement → Prop
  | .createTable name columns =>
    Text.Fits name.value ∧ (columns.getD []).length < 2 ^ 64 ∧
      ∀ d ∈ columns.getD [], Text.Fits d.name.value
  | .insert table values =>
    Text.Fits table.value ∧ ∀ value ∈ values.getD [], Database.ExpressionFits value
  | .select _ table => Text.Fits table.value

/-- Whether a value is no negative integer. -/
def Value.Unsigned : Value → Prop
  | .int n => 0 ≤ n.toInt
  | .text _ => True

/-- Whether no expression of a statement is a negative integer. -/
def Statement.Unsigned (statement : Statement) : Prop :=
  ∀ e ∈ statement.expressions, ∀ v ∈ e.slot, v.Unsigned

namespace Token

variable {t : Token}

/-- A literal can be stored if its text is written in full. -/
theorem IsLiteral.fits (ht : t.IsLiteral) (htext : t.kind = .string → Text.Fits t.value) :
    Database.LiteralFits t := by
  refine ⟨fun hkind => ?_, htext⟩
  rcases ht with hname | hstring | ⟨-, n, hread⟩
  · rw [hkind] at hname
    cases hname
  · rw [hkind] at hstring
    cases hstring
  · rw [hread]
    rfl

/-- A literal without a minus in front has no negative value. -/
theorem unsigned_value? (ht : t.kind = .numeric → t.value.toList.head? ≠ some '-') :
    ∀ v ∈ t.value?, v.Unsigned := by
  intro v hv
  unfold Token.value? at hv
  split at hv
  · next hkind =>
    cases hread : Numeral.read t.value with
    | error fault =>
      rw [hread] at hv
      cases hv
    | ok n =>
      rw [hread] at hv
      cases hv
      exact Numeral.read_nonneg (ht hkind) hread
  · cases hv
    exact trivial
  · cases hv

end Token

namespace Grammar

variable {ts : List Token} {statement : Statement}

/-- The literals of a list of expressions are among its tokens. -/
theorem CommaList.literal_mem {expressions : List Expression} (h : CommaList Chain ts expressions)
    {t : Token} (ht : .literal t ∈ expressions) : t ∈ ts ∧ t.IsLiteral := by
  obtain ⟨words, hwords, hchain⟩ := h.sublist_of_mem _ ht
  cases hchain with
  | literal hliteral => exact ⟨hwords.subset List.mem_cons_self, hliteral⟩

/-- A statement can be stored if the values of its tokens are written in full. -/
theorem Clause.fits (h : Clause ts statement) (hlen : ts.length < 2 ^ 64)
    (hts : ∀ t ∈ ts, Text.Fits t.value) : statement.Fits := by
  cases h with
  | createTable hcreate htable hname =>
    exact ⟨hts _ (by simp), by decide, List.forall_mem_nil _⟩
  | createTableWith hcreate htable hname hopen hcolumns hclose =>
    refine ⟨hts _ (by simp), ?_, ?_⟩
    · -- every column has tokens of its own
      have hle := hcolumns.length_le fun hcolumn => by
        cases hcolumn
        exact Nat.zero_lt_succ _
      simp only [List.length_cons, List.length_append] at hlen
      rw [Option.getD_some]
      omega
    · intro d hd
      obtain ⟨words, hwords, hcolumn⟩ := hcolumns.sublist_of_mem d hd
      cases hcolumn with
      | mk hname htype =>
        have hmem := hwords.subset List.mem_cons_self
        exact hts _ (by simp [hmem])
  | insert hinsert hinto hname => exact ⟨hts _ (by simp), List.forall_mem_nil _⟩
  | insertValues hinsert hinto hname hvalues hopen hexpressions hclose =>
    refine ⟨hts _ (by simp), fun value hvalue => ?_⟩
    cases value with
    | binary left operator right => exact trivial
    | literal t =>
      obtain ⟨hmem, hliteral⟩ := hexpressions.literal_mem hvalue
      exact hliteral.fits fun _ => hts t (by simp [hmem])
  | select hselect hitems hfrom hname => exact hts _ (by simp)

/-- A statement has no negative integers if none of its numbers begins with a minus. -/
theorem Clause.unsigned (h : Clause ts statement)
    (hts : ∀ t ∈ ts, t.kind = .numeric → t.value.toList.head? ≠ some '-') : statement.Unsigned := by
  have hlist : ∀ {ts' : List Token} {expressions : List Expression},
      CommaList Chain ts' expressions → ts' ⊆ ts → ∀ e ∈ expressions, ∀ v ∈ e.slot, v.Unsigned := by
    intro ts' expressions hexpressions hsubset e he
    cases e with
    | binary left operator right =>
      intro v hv
      cases hv
    | literal t =>
      exact Token.unsigned_value? (hts t (hsubset (hexpressions.literal_mem he).1))
  cases h with
  | insertValues hinsert hinto hname hvalues hopen hexpressions hclose =>
    exact hlist hexpressions fun t ht => by simp [ht]
  | select hselect hitems hfrom hname => exact hlist hitems fun t ht => by simp [ht]
  | _ => exact List.forall_mem_nil _

end Grammar

/-- The tokens of a text that is read are those of its statements. -/
theorem clause_of_parseText {text : String} {statements : List Statement}
    (h : parseText text = .ok statements) : ∀ statement ∈ statements,
      ∃ words, words.Sublist (TokenStream.ofText text).tokens ∧ Grammar.Clause words statement :=
  ((parse_eq_ok_iff _ _).1 h).2.sublist_of_mem

/-- The statements of a text that is written in full can be stored. -/
theorem fits_of_parseText {text : String} (htext : Text.Fits text) {statements : List Statement}
    (h : parseText text = .ok statements) : ∀ statement ∈ statements, statement.Fits := by
  intro statement hstatement
  obtain ⟨words, hwords, hclause⟩ := clause_of_parseText h statement hstatement
  refine hclause.fits ?_ fun t ht => TokenStream.fits_of_mem htext (hwords.subset ht)
  calc words.length ≤ (TokenStream.ofText text).tokens.length := hwords.length_le
    _ ≤ (Utf8.encode text).length := TokenStream.length_tokens_le text
    _ < 2 ^ 64 := htext

/-- The statements of a text have no negative integers. -/
theorem unsigned_of_parseText {text : String} {statements : List Statement}
    (h : parseText text = .ok statements) : ∀ statement ∈ statements, statement.Unsigned := by
  intro statement hstatement
  obtain ⟨words, hwords, hclause⟩ := clause_of_parseText h statement hstatement
  exact hclause.unsigned fun t ht hkind =>
    (TokenStream.no_sign_of_mem (hwords.subset ht) hkind).2

/-! ## Texts and the database -/

namespace Database

/-- The results of statements carried out in order, or the error of the first that fails, and the
database after them. -/
def executeAll (policy : DuplicatePolicy) (db : Database) :
    List Statement → Except Error (List ResultSet) × Database
  | [] => (.ok [], db)
  | statement :: rest =>
    match db.execute policy statement with
    | (.error e, after) => (.error e, after)
    | (.ok result, after) =>
      ((executeAll policy after rest).1.map (result :: ·), (executeAll policy after rest).2)

/-- The results of the statements of a text, and the database after them. A text that is not read
changes nothing. -/
def executeText (policy : DuplicatePolicy) (db : Database) (text : String) :
    Except Error (List ResultSet) × Database :=
  match parseText text with
  | .error e => (.error (.parse e), db)
  | .ok statements => db.executeAll policy statements

/-- The results of texts given one after the other, each with the database after it. -/
def outcomes (policy : DuplicatePolicy) (db : Database) :
    List String → List (Except Error (List ResultSet) × Database)
  | [] => []
  | text :: rest =>
    db.executeText policy text :: outcomes policy (db.executeText policy text).2 rest

/-- Whether the rows can be counted after every statement that is carried out. -/
def CanCountAll (policy : DuplicatePolicy) (db : Database) : List Statement → Prop
  | [] => True
  | statement :: rest =>
    (db.execute policy statement).2.CanCount statement.tableName ∧
      ((db.execute policy statement).1.toBool = true →
        CanCountAll policy (db.execute policy statement).2 rest)

/-- Whether the rows can be counted after every statement of texts that is carried out. -/
def CanCountTexts (policy : DuplicatePolicy) (db : Database) : List String → Prop
  | [] => True
  | text :: rest =>
    (∀ statements, parseText text = .ok statements → db.CanCountAll policy statements) ∧
      CanCountTexts policy (db.executeText policy text).2 rest

/-- There is room for a statement that can be stored if the rows can be counted after it. -/
theorem hasRoom_of_fits {policy : DuplicatePolicy} {db : Database} {statement : Statement}
    (hfits : statement.Fits)
    (hcount : (db.execute policy statement).2.CanCount statement.tableName) :
    db.HasRoom statement := by
  cases statement with
  | createTable name columns => exact hfits
  | insert table values => exact ⟨hfits.1, hfits.2, hcount⟩
  | select items table => exact hfits

/-- What every statement keeps is kept by statements one after the other. -/
theorem executeAll_keeps {policy : DuplicatePolicy} {P : Database → Prop}
    {statements : List Statement} (hstep : ∀ statement ∈ statements, ∀ db : Database,
      P db → P (db.execute policy statement).2) {db : Database} (h : P db) :
    P (db.executeAll policy statements).2 := by
  induction statements generalizing db with
  | nil => exact h
  | cons statement rest ih =>
    have hafter := hstep statement List.mem_cons_self db h
    rw [executeAll]
    rcases hfirst : db.execute policy statement with ⟨e | result, after⟩ <;> rw [hfirst] at hafter
    · exact hafter
    · exact ih (fun s hs => hstep s (List.mem_cons_of_mem _ hs)) hafter

/-- Statements one after the other fail as one of them does. -/
theorem executeAll_error {policy : DuplicatePolicy} {statements : List Statement} {db : Database}
    {e : Error} (h : (db.executeAll policy statements).1 = .error e) :
    ∃ (before : Database) (statement : Statement), (before.execute policy statement).1 = .error e := by
  induction statements generalizing db with
  | nil => cases h
  | cons statement rest ih =>
    rw [executeAll] at h
    rcases hfirst : db.execute policy statement with ⟨e' | result, after⟩
    · rw [hfirst] at h
      cases h
      exact ⟨db, statement, by rw [hfirst]⟩
    · simp only [hfirst] at h
      cases hothers : (executeAll policy after rest).1 with
      | error e' =>
        rw [hothers] at h
        cases h
        exact ih hothers
      | ok results =>
        rw [hothers] at h
        cases h

end Database

/-! ## Texts and the store -/

namespace TableStore.Stores

variable {s : TableStore} {db : Database}

/-- Statements one after the other answer as the database does. -/
theorem executeAll (h : s.Stores db) (policy : DuplicatePolicy) {statements : List Statement}
    (hfits : ∀ statement ∈ statements, statement.Fits) (hcounts : db.CanCountAll policy statements) :
    (SqlStore.executeAll policy s statements).answer = (db.executeAll policy statements).1 ∧
      (SqlStore.executeAll policy s statements).store.Stores (db.executeAll policy statements).2 := by
  -- induction on the statements; the second half carries it past each of them
  induction statements generalizing s db with
  | nil => exact ⟨rfl, h⟩
  | cons statement rest ih =>
    obtain ⟨hcount, hrest⟩ := hcounts
    have hroom := Database.hasRoom_of_fits (hfits statement List.mem_cons_self) hcount
    obtain ⟨hanswer, hafter⟩ := h.execute policy hroom
    rw [SqlStore.executeAll, Outcome.andThen, Database.executeAll]
    rcases hfirst : db.execute policy statement with ⟨e | result, after⟩
    · rw [hfirst] at hanswer hafter
      simp only [hanswer]
      exact ⟨trivial, hafter⟩
    · rw [hfirst] at hanswer hafter hrest
      obtain ⟨hanswers, hend⟩ :=
        ih hafter (fun s hs => hfits s (List.mem_cons_of_mem _ hs)) (hrest rfl)
      simp only [hanswer, Outcome.map]
      exact ⟨congrArg (Except.map (result :: ·)) hanswers, hend⟩

end TableStore.Stores

namespace Session

/-- The outcomes of texts given one after the other. -/
def outcomes (s : Session) : List String → List (Outcome (List ResultSet))
  | [] => []
  | text :: rest => s.executeText text :: (s.after (s.executeText text)).outcomes rest

/-- Whether an outcome has the answer of the database and stores what the database has become. -/
def Refines (o : Outcome (List ResultSet)) (result : Except Error (List ResultSet) × Database) :
    Prop :=
  o.answer = result.1 ∧ o.store.Stores result.2

/-- Every outcome has its result. -/
theorem exists_result {outcomes : List (Outcome (List ResultSet))}
    {results : List (Except Error (List ResultSet) × Database)}
    (h : List.Forall₂ Refines outcomes results) : ∀ o ∈ outcomes, ∃ result ∈ results, Refines o result := by
  induction h with
  | nil => exact List.forall_mem_nil _
  | cons hfirst hrest ih =>
    intro o ho
    rcases List.mem_cons.1 ho with rfl | ho
    · exact ⟨_, List.mem_cons_self, hfirst⟩
    · obtain ⟨result, hresult, hrefines⟩ := ih o ho
      exact ⟨result, List.mem_cons_of_mem _ hresult, hrefines⟩

/-- A text is answered as by the database. -/
theorem executeText_refines {s : Session} {db : Database} (h : s.store.Stores db) {text : String}
    (hfits : ∀ statements, parseText text = .ok statements →
      ∀ statement ∈ statements, statement.Fits)
    (hcounts : ∀ statements, parseText text = .ok statements → db.CanCountAll s.policy statements) :
    Refines (s.executeText text) (db.executeText s.policy text) := by
  unfold executeText Database.executeText
  cases hparse : parseText text with
  | error e => exact ⟨rfl, h⟩
  | ok statements => exact h.executeAll s.policy (hfits _ hparse) (hcounts _ hparse)

/-- Texts are answered as by the database that the session stores. -/
theorem outcomes_refine {s : Session} {db : Database} (h : s.store.Stores db) {texts : List String}
    (hfits : ∀ text ∈ texts, ∀ statements, parseText text = .ok statements →
      ∀ statement ∈ statements, statement.Fits)
    (hcounts : db.CanCountTexts s.policy texts) :
    List.Forall₂ Refines (s.outcomes texts) (db.outcomes s.policy texts) := by
  -- induction on the texts; `Stores` is kept by every one of them
  induction texts generalizing s db with
  | nil => exact .nil
  | cons text rest ih =>
    obtain ⟨hcount, hrest⟩ := hcounts
    have hfirst := executeText_refines h (hfits text List.mem_cons_self) hcount
    exact .cons hfirst (ih (s := s.after (s.executeText text)) hfirst.2
      (fun other hother => hfits other (List.mem_cons_of_mem _ hother)) hrest)

end Session

end SqlStore
