import UnionFS.Proofs.Session.Admission
import UnionFS.Proofs.Text.Words

/-!
# Layouts of a key list

A key list may be laid out in many ways: with any blanks and commas between the fields of a line,
blanks at its ends, lines that end with or without a carriage return, and comments, blank lines and
lines of another form between the others.  `Layout` says what a list with these keys can look like.
However it is laid out, the keys are read as they are and in their order (`parse_of_layout`).

A line does not see what stands on the others: each is read alone (`ofLine?_of_line`), and a line
feed is where one ends (`parse_append_line`).
-/

namespace UnionFS

open Text

namespace AuthorizedKey

variable {line lead rest gap : List Char} {o : Option AuthorizedKey} {entry : AuthorizedKey}
  {text : String}

/-- The text can be a field of a line. -/
def IsField (text : String) : Prop :=
  text ≠ "" ∧ ∀ c ∈ text.toList, isSeparator c = false

/-- The fields of the entry can be told apart on a line, which does not look like a comment. -/
structure Plain (entry : AuthorizedKey) : Prop where
  root : IsField entry.root
  user : IsField entry.user
  key : IsField entry.key
  notComment : entry.root.toList.head? ≠ some '#'

/-- Blanks within a line, perhaps none. -/
def Blanks (text : List Char) : Prop :=
  ∀ c ∈ text, isBlank c = true ∧ c ≠ '\n'

/-- What stands between two fields of a line: at least one comma or blank. -/
def Gap (text : List Char) : Prop :=
  text ≠ [] ∧ ∀ c ∈ text, isSeparator c = true ∧ c ≠ '\n'

-- all three go through the text, and not through the characters there are

instance (text : String) : Decidable (IsField text) :=
  @instDecidableAnd _ _ inferInstance (List.decidableBAll _ text.toList)

instance (text : List Char) : Decidable (Blanks text) :=
  List.decidableBAll _ text

instance (text : List Char) : Decidable (Gap text) :=
  @instDecidableAnd _ _ inferInstance (List.decidableBAll _ text)

/-- What a line with this entry, or without any, can look like. -/
inductive IsLine : Option AuthorizedKey → List Char → Prop where
  | entry {entry : AuthorizedKey} {lead gap gap' tail : List Char} :
    Blanks lead → Gap gap → Gap gap' → Blanks tail →
    IsLine (some entry)
      (lead ++ entry.root.toList
        ++ (gap ++ entry.user.toList ++ (gap' ++ entry.key.toList ++ tail)))
  | blank {line : List Char} : Blanks line → IsLine none line
  | comment {lead rest : List Char} : Blanks lead → '\n' ∉ rest → IsLine none (lead ++ '#' :: rest)
  | malformed {line : List Char} {fields : List (List Char)} :
    '\n' ∉ line → Spaced isSeparator fields line → fields.length ≠ 3 → IsLine none line

/-! ## Fields and what stands around them -/

theorem isSeparator_of_isBlank {c : Char} (h : isBlank c = true) : isSeparator c = true := by
  rw [isSeparator, h, Bool.or_true]

theorem isBlank_of_not_isSeparator {c : Char} (h : isSeparator c = false) : isBlank c = false :=
  (Bool.or_eq_false_iff.mp h).2

theorem IsField.ne_nil (h : IsField text) : text.toList ≠ [] := fun hnil =>
  h.1 (String.toList_eq_nil_iff.mp hnil)

theorem IsField.newline_not_mem (h : IsField text) : '\n' ∉ text.toList := fun hmem =>
  absurd (h.2 '\n' hmem) (by decide)

theorem Blanks.isSeparator (h : Blanks lead) : ∀ c ∈ lead, isSeparator c = true := fun c hc =>
  isSeparator_of_isBlank (h c hc).1

theorem Blanks.newline_not_mem (h : Blanks lead) : '\n' ∉ lead := fun hmem => (h '\n' hmem).2 rfl

theorem Gap.newline_not_mem (h : Gap gap) : '\n' ∉ gap := fun hmem => (h.2 '\n' hmem).2 rfl

/-- Behind a field comes a separator. -/
theorem Gap.isSeparator_head (h : Gap gap) (rest : List Char) (c : Char)
    (hc : (gap ++ rest).head? = some c) : isSeparator c = true := by
  obtain ⟨first, more, rfl⟩ := List.exists_cons_of_ne_nil h.1
  obtain rfl : first = c := Option.some.inj hc
  exact (h.2 first List.mem_cons_self).1

/-! ## A line alone -/

/-- A line is a comment by its first character that is not blank.  On any other its words count. -/
theorem ofLine?_eq (line : List Char) :
    ofLine? line =
      if (line.dropWhile isBlank).head? == some '#' then none
      else match words isSeparator line with
        | [root, user, key] =>
          some ⟨String.ofList root, String.ofList user, String.ofList key⟩
        | _ => none := by
  have hwords : words isSeparator (trim line) = words isSeparator line :=
    words_trim (fun c hc => isSeparator_of_isBlank hc) line
  rw [← hwords, ← head?_trim]
  rfl

theorem ofLine?_of_comment (hlead : Blanks lead) (rest : List Char) :
    ofLine? (lead ++ '#' :: rest) = none := by
  have hdrop : (lead ++ '#' :: rest).dropWhile isBlank = '#' :: rest := by
    rw [List.dropWhile_append_of_pos fun c hc => (hlead c hc).1]
    exact List.dropWhile_cons_of_neg (by decide)
  rw [ofLine?_eq, hdrop]
  rfl

theorem ofLine?_of_count {fields : List (List Char)} (h : Spaced isSeparator fields line)
    (hcount : fields.length ≠ 3) : ofLine? line = none := by
  rw [ofLine?_eq, h.words_eq]
  split
  · rfl
  · split
    · exact absurd rfl hcount
    · rfl

/-- The first character of a line that is not blank is that of its first field. -/
theorem IsField.head?_dropWhile (h : IsField text) (hlead : Blanks lead) (rest : List Char) :
    ((lead ++ text.toList ++ rest).dropWhile isBlank).head? = text.toList.head? := by
  obtain ⟨c, more, htext⟩ := List.exists_cons_of_ne_nil h.ne_nil
  have hc : isBlank c = false := by
    refine isBlank_of_not_isSeparator (h.2 c ?_)
    rw [htext]
    exact List.mem_cons_self
  rw [List.append_assoc, List.dropWhile_append_of_pos fun c hc => (hlead c hc).1, htext,
    List.cons_append, List.dropWhile_cons_of_neg (Bool.eq_false_iff.mp hc)]
  rfl

theorem ofLine?_of_entry {gap' tail : List Char} (h : entry.Plain) (hlead : Blanks lead)
    (hgap : Gap gap) (hgap' : Gap gap') (htail : Blanks tail) :
    ofLine? (lead ++ entry.root.toList
      ++ (gap ++ entry.user.toList ++ (gap' ++ entry.key.toList ++ tail))) = some entry := by
  have hspaced : Spaced isSeparator
      [entry.root.toList, entry.user.toList, entry.key.toList]
      (lead ++ entry.root.toList
        ++ (gap ++ entry.user.toList ++ (gap' ++ entry.key.toList ++ tail))) := by
    refine .word hlead.isSeparator h.root.ne_nil h.root.2 ?_ ?_
    · rw [List.append_assoc]
      exact hgap.isSeparator_head _
    refine .word (fun c hc => (hgap.2 c hc).1) h.user.ne_nil h.user.2 ?_ ?_
    · rw [List.append_assoc]
      exact hgap'.isSeparator_head _
    refine .word (fun c hc => (hgap'.2 c hc).1) h.key.ne_nil h.key.2 ?_ (.gap htail.isSeparator)
    exact fun c hc => htail.isSeparator c (List.mem_of_mem_head? hc)
  rw [ofLine?_eq, h.root.head?_dropWhile hlead, if_neg (by simpa using h.notComment),
    hspaced.words_eq]
  simp only [String.ofList_toList]

/-- **A line is read by itself.** -/
theorem ofLine?_of_line (hplain : ∀ entry ∈ o, entry.Plain) (h : IsLine o line) :
    ofLine? line = o := by
  cases h with
  | entry hlead hgap hgap' htail =>
      exact ofLine?_of_entry (hplain _ rfl) hlead hgap hgap' htail
  | blank hline => exact ofLine?_of_count (.gap hline.isSeparator) (by decide)
  | comment hlead => exact ofLine?_of_comment hlead _
  | malformed _ hspaced hcount => exact ofLine?_of_count hspaced hcount

/-- A carriage return at the end of a line does not count. -/
theorem ofLine?_append_return (line : List Char) : ofLine? (line ++ ['\r']) = ofLine? line := by
  have hhead : ((line ++ ['\r']).dropWhile isBlank).head? = (line.dropWhile isBlank).head? := by
    rw [List.dropWhile_append]
    cases line.dropWhile isBlank with
    | nil => rfl
    | cons c rest => rfl
  rw [ofLine?_eq, ofLine?_eq, hhead, words_append_gap (List.forall_mem_singleton.mpr (by decide))]

theorem IsLine.newline_not_mem (hplain : ∀ entry ∈ o, entry.Plain) (h : IsLine o line) :
    '\n' ∉ line := by
  cases h with
  | entry hlead hgap hgap' htail =>
      have hentry := hplain _ rfl
      simp only [List.mem_append, not_or]
      exact ⟨⟨hlead.newline_not_mem, hentry.root.newline_not_mem⟩,
        ⟨hgap.newline_not_mem, hentry.user.newline_not_mem⟩,
        ⟨hgap'.newline_not_mem, hentry.key.newline_not_mem⟩, htail.newline_not_mem⟩
  | blank hline => exact hline.newline_not_mem
  | comment hlead hrest =>
      simp only [List.mem_append, List.mem_cons, not_or]
      exact ⟨hlead.newline_not_mem, by decide, hrest⟩
  | malformed hline => exact hline

end AuthorizedKey

namespace AuthorizedKeys

open AuthorizedKey

variable {keys : AuthorizedKeys} {text : List Char}

/-! ## Lines in a row -/

/-- What a list with these keys can look like: lines with a line feed between any two, before which
there may be a carriage return. -/
inductive Layout : AuthorizedKeys → List Char → Prop where
  | last {o : Option AuthorizedKey} {line : List Char} : IsLine o line → Layout o.toList line
  | line {o : Option AuthorizedKey} {line ending rest : List Char} {keys : AuthorizedKeys} :
    IsLine o line → ending = ['\n'] ∨ ending = ['\r', '\n'] → Layout keys rest →
    Layout (o.toList ++ keys) (line ++ ending ++ rest)

/-- What stands before a line feed is a line. -/
theorem lines_append (line rest : List Char) (h : '\n' ∉ line) :
    lines (line ++ '\n' :: rest) = line :: lines rest := by
  rw [lines, pieces_append (by decide), pieces_of_none fun c hc => ?_]
  · rfl
  · exact beq_eq_false_iff_ne.mpr fun hc' => h (hc' ▸ hc)

theorem lines_of_one (line : List Char) (h : '\n' ∉ line) : lines line = [line] :=
  pieces_of_none fun _ hc => beq_eq_false_iff_ne.mpr fun hc' => h (hc' ▸ hc)

/-- **However a list is laid out, its keys are read in their order.** -/
theorem parse_of_layout (h : Layout keys text) (hplain : ∀ entry ∈ keys, entry.Plain) :
    (lines text).filterMap ofLine? = keys := by
  induction h with
  | @last o line hline =>
      have hentry : ∀ entry ∈ o, entry.Plain := fun entry he =>
        hplain entry (Option.mem_toList.mpr he)
      rw [lines_of_one line (hline.newline_not_mem hentry), List.filterMap_cons,
        ofLine?_of_line hentry hline]
      cases o with
      | none => rfl
      | some entry => rfl
  | @line o line ending rest keys hline hending _ ih =>
      obtain ⟨hfirst, hrest⟩ := List.forall_mem_append.mp hplain
      have hentry : ∀ entry ∈ o, entry.Plain := fun entry he =>
        hfirst entry (Option.mem_toList.mpr he)
      have hnone := hline.newline_not_mem hentry
      have hread := ofLine?_of_line hentry hline
      -- the line as it is cut, and what is read from it
      obtain ⟨cut, hcut, hsame, htext⟩ : ∃ cut, '\n' ∉ cut ∧ ofLine? cut = o
          ∧ line ++ ending ++ rest = cut ++ '\n' :: rest := by
        rcases hending with rfl | rfl
        · exact ⟨line, hnone, hread, by rw [List.append_assoc]; rfl⟩
        · refine ⟨line ++ ['\r'], ?_, ?_, ?_⟩
          · simp only [List.mem_append, List.mem_singleton, not_or]
            exact ⟨hnone, by decide⟩
          · rw [ofLine?_append_return, hread]
          · simp only [List.append_assoc, List.cons_append, List.nil_append]
      rw [htext, lines_append cut rest hcut, List.filterMap_cons, hsame, ih hrest]
      cases o with
      | none => rfl
      | some entry => rfl

/-- **A key list is recovered whatever its layout**: its entries are read as they stand, the lists
of two texts one after the other are read one after the other, no field is ever empty, and a key is
found where it stands first, or nowhere. -/
theorem recovered :
    (∀ (keys : AuthorizedKeys) (text : String), (∀ entry ∈ keys, entry.Plain) →
        Layout keys text.toList → parse text = keys)
      ∧ (∀ a b : String, parse (a ++ "\n" ++ b) = parse a ++ parse b)
      ∧ (∀ (text : String), ∀ entry ∈ parse text,
        entry.root ≠ "" ∧ entry.user ≠ "" ∧ entry.key ≠ "")
      ∧ ∀ (keys : AuthorizedKeys) (key : String),
        (∀ entry, keys.find? key = some entry ↔ keys.First key entry)
          ∧ (keys.find? key = none ↔ ∀ entry ∈ keys, entry.key ≠ key) :=
  ⟨fun _ _ hplain h => parse_of_layout h hplain, parse_append_line, fun _ _ h => fields_ne_empty h,
    fun _ _ => ⟨fun _ => find?_eq_some_iff, find?_eq_none_iff⟩⟩

def sampleEntries : AuthorizedKeys := [⟨"/srv/a", "alice", "KEYA"⟩, ⟨"/srv/b", "bob", "KEYB"⟩]

/-- A list with a comment, a blank line and one that is broken. -/
def sampleText : String :=
  "# root user key\r\n \t/srv/a, alice ,,KEYA \r\n\nbroken line\n/srv/b,bob,KEYB"

theorem plain_sampleEntries : ∀ entry ∈ sampleEntries, entry.Plain := by
  refine List.forall_mem_cons.mpr ⟨?_, List.forall_mem_singleton.mpr ?_⟩
  all_goals exact ⟨by decide, by decide, by decide, by decide⟩

theorem layout_sample : Layout sampleEntries sampleText.toList := by
  have hcomment : IsLine none ([] ++ '#' :: " root user key".toList) :=
    .comment (List.forall_mem_nil _) (by decide)
  have hfirst : IsLine (some ⟨"/srv/a", "alice", "KEYA"⟩)
      (" \t".toList ++ "/srv/a".toList
        ++ (", ".toList ++ "alice".toList ++ (" ,,".toList ++ "KEYA".toList ++ " ".toList))) :=
    .entry (by decide) (by decide) (by decide) (by decide)
  have hbroken : IsLine none ("broken".toList ++ " line".toList) :=
    .malformed (by decide) (spaced_words _ _) (by decide)
  have hlast : IsLine (some ⟨"/srv/b", "bob", "KEYB"⟩)
      ([] ++ "/srv/b".toList
        ++ (",".toList ++ "bob".toList ++ (",".toList ++ "KEYB".toList ++ []))) :=
    .entry (by decide) (by decide) (by decide) (by decide)
  exact .line hcomment (.inr rfl) <| .line hfirst (.inr rfl) <|
    .line (.blank (List.forall_mem_nil _)) (.inl rfl) <| .line hbroken (.inl rfl) (.last hlast)

theorem recovered_sample :
    (∀ entry ∈ sampleEntries, entry.Plain) ∧ Layout sampleEntries sampleText.toList
      ∧ parse sampleText = sampleEntries :=
  ⟨plain_sampleEntries, layout_sample,
    recovered.1 sampleEntries sampleText plain_sampleEntries layout_sample⟩

end AuthorizedKeys
end UnionFS
