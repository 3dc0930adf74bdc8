import ResolverKit.Proofs.Arrangement

/-!
# What stands in a comment

A description becomes a text that fits between `/**` and `*/` on one line: `IsCommentText` says that
it has no comment closer and no blanks but single spaces inside it.  These texts are the ones that
stay as they are, so nothing is left to do a second time:

    commentText (some s) = s ↔ IsCommentText s.toList                     (commentText_eq_self_iff)

Breaking up a closer only adds a space, and folding and trimming only touch blanks, so the other
characters stay in their order.
-/

namespace ResolverKit.Text

open Code (NoCloser noCloser_cons_iff pair_infix_cons_iff noCloser_commentText
  eq_space_of_mem_commentText trim_isInfix)

/-! ## Texts that fit -/

/-- The text has no comment closer, and its blanks are single spaces between other characters. -/
structure IsCommentText (cs : List Char) : Prop where
  noCloser : NoCloser cs
  eq_space : ∀ c ∈ cs, isBlank c = true → c = ' '
  single : ¬ [' ', ' '] <:+: cs
  head : cs.head? ≠ some ' '
  last : cs.getLast? ≠ some ' '

/-! ## Breaking closers -/

theorem breakClosers_eq_self {cs : List Char} (h : NoCloser cs) : breakClosers cs = cs := by
  fun_induction breakClosers cs with
  | case1 => rfl
  | case2 r => exact absurd ⟨rfl, rfl⟩ (noCloser_cons_iff.1 h).1
  | case3 c r _ ih => rw [ih (noCloser_cons_iff.1 h).2]

theorem filter_breakClosers (cs : List Char) :
    (breakClosers cs).filter (!isBlank ·) = cs.filter (!isBlank ·) := by
  have hspace : isBlank ' ' = true := rfl
  fun_induction breakClosers cs with
  | case1 => rfl
  | case2 r ih => simp [List.filter_cons, hspace, ih]
  | case3 c r _ ih => rw [List.filter_cons, List.filter_cons, ih]

/-! ## Folding blanks -/

/-- Behind a blank no further space is written. -/
theorem head?_squeezeFrom_true (cs : List Char) : (squeezeFrom true cs).head? ≠ some ' ' := by
  induction cs with
  | nil => simp [squeezeFrom]
  | cons c r ih =>
    rw [squeezeFrom]
    split_ifs with hc hrun
    · exact ih
    · exact absurd rfl hrun
    · intro h
      obtain rfl : c = ' ' := Option.some.inj h
      exact hc rfl

theorem single_squeezeFrom (inRun : Bool) (cs : List Char) :
    ¬ [' ', ' '] <:+: squeezeFrom inRun cs := by
  induction cs generalizing inRun with
  | nil => simp [squeezeFrom]
  | cons c r ih =>
    rw [squeezeFrom]
    split_ifs with hc
    · exact ih true
    · rw [pair_infix_cons_iff]
      rintro (⟨-, hhead⟩ | hrest)
      · exact head?_squeezeFrom_true r hhead
      · exact ih true hrest
    · rw [pair_infix_cons_iff]
      rintro (⟨rfl, -⟩ | hrest)
      · exact hc rfl
      · exact ih false hrest

/-- `inRun` says that a blank stands in front; then the text must not start with one. -/
theorem squeezeFrom_eq_self {cs : List Char} (hspace : ∀ c ∈ cs, isBlank c = true → c = ' ')
    (hsingle : ¬ [' ', ' '] <:+: cs) {inRun : Bool} (hhead : inRun = true → cs.head? ≠ some ' ') :
    squeezeFrom inRun cs = cs := by
  induction cs generalizing inRun with
  | nil => rfl
  | cons c r ih =>
    have hrest := ih fun x hx => hspace x (.tail _ hx)
    rw [pair_infix_cons_iff, not_or] at hsingle
    rw [squeezeFrom]
    split_ifs with hc hrun
    · obtain rfl : c = ' ' := hspace c (.head _) hc
      exact absurd rfl (hhead hrun)
    · obtain rfl : c = ' ' := hspace c (.head _) hc
      rw [hrest hsingle.2 fun _ hr => hsingle.1 ⟨rfl, hr⟩]
    · rw [hrest hsingle.2 fun hfalse => absurd hfalse Bool.false_ne_true]

theorem filter_squeezeFrom (inRun : Bool) (cs : List Char) :
    (squeezeFrom inRun cs).filter (!isBlank ·) = cs.filter (!isBlank ·) := by
  have hspace : isBlank ' ' = true := rfl
  induction cs generalizing inRun with
  | nil => rfl
  | cons c r ih =>
    rw [squeezeFrom]
    split_ifs with hc <;> simp [hspace, hc, ih]

/-! ## Trimming -/

theorem filter_trimLeft (cs : List Char) :
    (trimLeft cs).filter (!isBlank ·) = cs.filter (!isBlank ·) := by
  have hblank : (cs.takeWhile isBlank).filter (!isBlank ·) = [] := by
    refine List.filter_eq_nil_iff.2 fun c hc => ?_
    simp [List.mem_takeWhile_imp hc]
  calc (trimLeft cs).filter (!isBlank ·)
      = (cs.takeWhile isBlank ++ cs.dropWhile isBlank).filter (!isBlank ·) := by
        rw [List.filter_append, hblank, List.nil_append, trimLeft]
    _ = cs.filter (!isBlank ·) := by rw [List.takeWhile_append_dropWhile]

theorem filter_trim (cs : List Char) : (trim cs).filter (!isBlank ·) = cs.filter (!isBlank ·) := by
  rw [trim, trimRight, List.filter_reverse, filter_trimLeft, List.filter_reverse,
    List.reverse_reverse, filter_trimLeft]

/-! ## Comment texts -/

theorem toList_commentText (description : Option String) :
    (commentText description).toList = commentChars (description.getD "").toList :=
  String.toList_ofList

theorem isCommentText_commentText (description : Option String) :
    IsCommentText (commentText description).toList := by
  have hblank : isBlank ' ' = true := rfl
  constructor
  case noCloser => exact noCloser_commentText description
  case eq_space => exact fun c hc => eq_space_of_mem_commentText hc
  case single =>
    rw [toList_commentText]
    exact fun h => single_squeezeFrom false _ (h.trans (trim_isInfix _))
  case head =>
    intro h
    rw [toList_commentText] at h
    rw [head?_trim ' ' h] at hblank
    cases hblank
  case last =>
    intro h
    rw [toList_commentText] at h
    rw [getLast?_trim ' ' h] at hblank
    cases hblank

/-- The texts that fit are those that stay as they are. -/
theorem commentText_eq_self_iff {s : String} :
    commentText (some s) = s ↔ IsCommentText s.toList := by
  constructor
  · intro h
    rw [← h]
    exact isCommentText_commentText (some s)
  · intro h
    have hsqueeze : squeeze s.toList = s.toList :=
      squeezeFrom_eq_self h.eq_space h.single fun hfalse => absurd hfalse Bool.false_ne_true
    have htrim : trim s.toList = s.toList := by
      refine trim_eq_self (fun c hc => ?_) (fun c hc => ?_)
      · refine Bool.eq_false_iff.2 fun hblank => h.head ?_
        rwa [← h.eq_space c (List.mem_of_mem_head? hc) hblank]
      · refine Bool.eq_false_iff.2 fun hblank => h.last ?_
        rwa [← h.eq_space c (List.mem_of_mem_getLast? hc) hblank]
    rw [← String.toList_inj, toList_commentText, Option.getD_some, commentChars,
      breakClosers_eq_self h.noCloser, hsqueeze, htrim]

/-- What a description becomes fits into a comment, keeps the characters that are no blanks in
their order, and stays as it is from then on. -/
theorem commentText_fits (description : Option String) :
    IsCommentText (commentText description).toList ∧
      (commentText description).toList.filter (!isBlank ·) =
        (description.getD "").toList.filter (!isBlank ·) ∧
      commentText (some (commentText description)) = commentText description := by
  have hfits := isCommentText_commentText description
  refine ⟨hfits, ?_, commentText_eq_self_iff.2 hfits⟩
  rw [toList_commentText, commentChars, filter_trim, squeeze, filter_squeezeFrom,
    filter_breakClosers]

example : commentText (some "\u2028ends **//\t here ") = "ends ** // here" := by decide +kernel

end ResolverKit.Text
