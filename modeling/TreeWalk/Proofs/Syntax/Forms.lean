import TreeWalk.Proofs.Token.Lexicon
import TreeWalk.Syntax.Prefix

/-!
# Parenthesized forms

Words, and lists of forms in parentheses with one blank between each two. The text of a form can
be read in one way only, as long as its words are lexemes without blanks and parentheses: a list
ends where its parenthesis closes, and a word where a blank or a closing parenthesis stops it.
-/

namespace TreeWalk

/-- A word of some kind, or a list of forms. -/
inductive Form where
  | word (kind : Kind)
  | list (items : List Form)

namespace Form

mutual

/-- The text of the form. -/
def text : Form → List Char
  | word kind => kind.prefixForm.toList
  | list [] => ['(', ')']
  | list (item :: items) => '(' :: (item.text ++ laterText items)

/-- The text of the later items of a list, each behind one blank, and of its end. -/
def laterText : List Form → List Char
  | [] => [')']
  | item :: items => ' ' :: (item.text ++ laterText items)

end

@[simp] theorem text_word (kind : Kind) : (word kind).text = kind.prefixForm.toList := by rw [text]

@[simp] theorem text_nil : (list []).text = ['(', ')'] := by rw [text]

@[simp] theorem text_cons (item : Form) (items : List Form) :
    (list (item :: items)).text = '(' :: (item.text ++ laterText items) := by rw [text]

@[simp] theorem laterText_nil : laterText [] = [')'] := by rw [laterText]

@[simp] theorem laterText_cons (item : Form) (items : List Form) :
    laterText (item :: items) = ' ' :: (item.text ++ laterText items) := by rw [laterText]

/-- An item and those behind it stand with one blank between each two. -/
theorem text_append_laterText (item : Form) (items : List Form) :
    item.text ++ laterText items = [' '].intercalate ((item :: items).map text) ++ [')'] := by
  induction items generalizing item with
  | nil => simp
  | cons next items inductionHypothesis =>
      rw [laterText_cons, inductionHypothesis next]
      simp [List.intercalate_cons_cons]

/-- The items of a list stand in parentheses, with one blank between each two. -/
theorem text_list (items : List Form) :
    (list items).text = '(' :: ([' '].intercalate (items.map text) ++ [')']) := by
  cases items with
  | nil => rw [text_nil]; rfl
  | cons item items => rw [text_cons, text_append_laterText]

/-- Whether a word ends in front of the character. -/
def endsWord (character : Char) : Bool :=
  character == ' ' || character == '(' || character == ')'

/-- The words in the form are lexemes of their kinds, and whole. -/
inductive Plain : Form → Prop where
  | word {kind : Kind} (spelled : Piece.Lexical ⟨.token kind, kind.prefixForm.toList⟩)
      (whole : ∀ c ∈ kind.prefixForm.toList, ¬ endsWord c) : Plain (word kind)
  | list {items : List Form} (each : ∀ item ∈ items, Plain item) : Plain (list items)

/-- What can follow a form: nothing, a further item or the end of a list. -/
def Follows (behind : List Char) : Prop :=
  ∀ c ∈ behind.head?, c = ' ' ∨ c = ')'

/-- Whatever follows its text, the form is read from there, and no other. -/
def ReadsBack (form : Form) : Prop :=
  ∀ other : Form, other.Plain → ∀ behind after, Follows behind → Follows after →
    form.text ++ behind = other.text ++ after → form = other ∧ behind = after

variable {form : Form} {kind : Kind} {items others : List Form} {behind after : List Char}

/-- The list of nothing is plain. -/
theorem Plain.nil : (Form.list []).Plain :=
  .list (by simp)

/-- A plain form in front of the items of a plain list makes a plain list. -/
theorem Plain.cons (plain : form.Plain) (later : (Form.list items).Plain) :
    (Form.list (form :: items)).Plain := by
  obtain _ | each := later
  exact .list (List.forall_mem_cons.2 ⟨plain, each⟩)

/-- A plain word begins with a character that ends none. -/
theorem Plain.exists_cons_of_word (plain : (Form.word kind).Plain) :
    ∃ head tail, (Form.word kind).text = head :: tail ∧ ¬ endsWord head := by
  cases plain with
  | word spelled whole =>
      have nonempty : kind.prefixForm.toList ≠ [] := spelled.text_ne_nil
      obtain ⟨head, tail, same⟩ := List.exists_cons_of_ne_nil nonempty
      exact ⟨head, tail, by rw [text_word, same], whole head (by simp [same])⟩

/-- A list begins with its opening parenthesis. -/
theorem exists_text_list (items : List Form) : ∃ inside, (list items).text = '(' :: inside := by
  cases items with
  | nil => exact ⟨[')'], text_nil⟩
  | cons item items => exact ⟨_, text_cons item items⟩

/-- A plain form begins as no list ends. -/
theorem Plain.text_append_ne (plain : form.Plain) : form.text ++ behind ≠ ')' :: after := by
  cases form with
  | word kind =>
      obtain ⟨head, tail, same, inside⟩ := plain.exists_cons_of_word
      rw [same]
      intro whole
      obtain ⟨rfl, -⟩ := List.cons.inj whole
      exact inside rfl
  | list items =>
      obtain ⟨inside, same⟩ := exists_text_list items
      rw [same]
      simp

/-- A plain word begins as no list does. -/
theorem Plain.word_append_ne (plain : (Form.word kind).Plain) :
    (Form.word kind).text ++ behind ≠ (Form.list items).text ++ after := by
  obtain ⟨head, tail, same, inside⟩ := plain.exists_cons_of_word
  obtain ⟨content, opening⟩ := exists_text_list items
  rw [same, opening]
  intro whole
  obtain ⟨rfl, -⟩ := List.cons.inj whole
  exact inside rfl

/-- Behind an item comes a further one or the end of the list. -/
theorem follows_laterText (items : List Form) (behind : List Char) :
    Follows (laterText items ++ behind) := by
  cases items <;> simp [Follows]

/-- A word does not go on into what follows a form. -/
theorem eq_nil_of_follows {more : List Char} (whole : ∀ c ∈ more, ¬ endsWord c)
    (follows : Follows (more ++ behind)) : more = [] := by
  cases more with
  | nil => rfl
  | cons head tail =>
      exfalso
      apply whole head List.mem_cons_self
      rcases follows head rfl with rfl | rfl <;> rfl

/-- A plain word is read from its text: it ends where the text does not go on with the word. -/
theorem readsBack_word (plain : (word kind).Plain) : (word kind).ReadsBack := by
  intro other otherPlain behind after follows otherFollows same
  cases other with
  | list items => exact absurd same plain.word_append_ne
  | word otherKind =>
      obtain ⟨spelled, whole⟩ := plain
      obtain ⟨otherSpelled, otherWhole⟩ := otherPlain
      have known (texts : kind.prefixForm.toList = otherKind.prefixForm.toList) :
          word kind = word otherKind := by
        have piece := spelled.eq_of_text_eq otherSpelled texts
        exact congrArg word (Finding.token.inj (congrArg Piece.finding piece))
      rw [text_word, text_word] at same
      -- One word may look longer than the other, by what would have to follow the other one.
      rcases List.append_eq_append_iff.1 same with ⟨more, longer, rfl⟩ | ⟨more, longer, rfl⟩
      · obtain rfl := eq_nil_of_follows
          (fun c inside => otherWhole c (by simp [longer, inside])) follows
        rw [List.append_nil] at longer
        exact ⟨known longer.symm, rfl⟩
      · obtain rfl := eq_nil_of_follows
          (fun c inside => whole c (by simp [longer, inside])) otherFollows
        rw [List.append_nil] at longer
        exact ⟨known longer, rfl⟩

/-- The later items of a list are read from their text, as each of them is. -/
theorem laterText_readsBack (each : ∀ item ∈ items, item.ReadsBack)
    (plain : ∀ other ∈ others, other.Plain)
    (same : laterText items ++ behind = laterText others ++ after) :
    items = others ∧ behind = after := by
  induction items generalizing others with
  | nil =>
      cases others with
      | nil => exact ⟨rfl, by simpa using same⟩
      | cons other others => simp at same
  | cons item items inductionHypothesis =>
      cases others with
      | nil => simp at same
      | cons other others =>
          obtain ⟨here, later⟩ := List.forall_mem_cons.1 each
          obtain ⟨otherPlain, laterPlain⟩ := List.forall_mem_cons.1 plain
          simp only [laterText_cons, List.cons_append, List.cons.injEq, true_and,
            List.append_assoc] at same
          obtain ⟨rfl, rest⟩ := here other otherPlain _ _ (follows_laterText items behind)
            (follows_laterText others after) same
          obtain ⟨rfl, rfl⟩ := inductionHypothesis later laterPlain rest
          exact ⟨rfl, rfl⟩

/-- A plain list is read from its text, as each of its items is. -/
theorem readsBack_list (plain : (list items).Plain) (each : ∀ item ∈ items, item.ReadsBack) :
    (list items).ReadsBack := by
  intro other otherPlain behind after _ _ same
  cases other with
  | word otherKind => exact absurd same.symm otherPlain.word_append_ne
  | list others =>
      obtain _ | plain := plain
      obtain _ | otherPlain := otherPlain
      -- Both lists are empty, or both go on with items, as no item begins as a list ends.
      cases items with
      | nil =>
          cases others with
          | nil => exact ⟨rfl, by simpa using same⟩
          | cons other others =>
              simp only [text_nil, text_cons, List.cons_append, List.cons.injEq, true_and,
                List.append_assoc, List.nil_append] at same
              exact absurd same.symm (otherPlain other List.mem_cons_self).text_append_ne
      | cons item items =>
          cases others with
          | nil =>
              simp only [text_nil, text_cons, List.cons_append, List.cons.injEq, true_and,
                List.append_assoc, List.nil_append] at same
              exact absurd same (plain item List.mem_cons_self).text_append_ne
          | cons other others =>
              obtain ⟨here, later⟩ := List.forall_mem_cons.1 each
              obtain ⟨otherHere, otherLater⟩ := List.forall_mem_cons.1 otherPlain
              simp only [text_cons, List.cons_append, List.cons.injEq, true_and,
                List.append_assoc] at same
              obtain ⟨rfl, rest⟩ := here other otherHere _ _ (follows_laterText items behind)
                (follows_laterText others after) same
              obtain ⟨rfl, rfl⟩ := laterText_readsBack later otherLater rest
              exact ⟨rfl, rfl⟩

/-- A plain form is read from its text. -/
theorem Plain.readsBack (plain : form.Plain) : form.ReadsBack := by
  induction plain with
  | word spelled whole => exact readsBack_word (.word spelled whole)
  | list each inductionHypothesis => exact readsBack_list (.list each) inductionHypothesis

/-- Plain forms are known by their texts. -/
theorem Plain.eq_of_text_eq {other : Form} (plain : form.Plain) (otherPlain : other.Plain)
    (same : form.text = other.text) : form = other := by
  have nothing : Follows [] := by simp [Follows]
  exact (plain.readsBack other otherPlain [] [] nothing nothing (by rw [same])).1

end Form

end TreeWalk
