import ResolverKit.Model.Specifier
import ResolverKit.Proofs.RelativePath

/-!
# Specifiers lead back

A specifier is the relative path to a model file without the ending of a source file, and without
the name `index` behind a slash.  Joined to the directory of the generated file it names the model
file again, up to what was left out (`specifier?_leads_back`).

Only the last segment of the path is touched: endings are taken off that segment alone
(`dropExtension_append`), and what is left of it is either `index` or kept as it is
(`dropEnding?_index_append`).
-/

namespace ResolverKit.Model

open Path

/-! ## Endings -/

def sourceEndings : List String := sourceExtensions ++ sourceExtensions.map (".d" ++ ·)

/-- Nothing, or a path up to a slash: what stands in front of the last segment. -/
def IsFront (front : List Char) : Prop := front = [] ∨ ∃ way, front = way ++ ['/']

theorem dropEnding?_eq_some_iff {ending : String} {cs base : List Char} :
    dropEnding? ending cs = some base ↔ cs = base ++ ending.toList := by
  rw [dropEnding?]
  constructor
  · intro h
    split at h
    · next hsuffix =>
      obtain ⟨base', rfl⟩ := List.isSuffixOf_iff_suffix.1 hsuffix
      rw [← Option.some.inj h, ← String.length_toList]
      simp
    · cases h
  · rintro rfl
    rw [if_pos (List.isSuffixOf_iff_suffix.2 ⟨base, rfl⟩), ← String.length_toList]
    simp

/-- An ending without slashes belongs to the last segment. -/
theorem append_eq_append_iff_of_isFront {front last base ending : List Char}
    (hfront : IsFront front) (hending : '/' ∉ ending) :
    front ++ last = base ++ ending ↔ ∃ kept, last = kept ++ ending ∧ front ++ kept = base := by
  constructor
  · intro h
    rcases List.append_eq_append_iff.1 h with ⟨kept, hbase, hlast⟩ | ⟨cut, hcut, hend⟩
    · exact ⟨kept, hlast, hbase.symm⟩
    · rcases List.eq_nil_or_concat cut with rfl | ⟨cut, c, rfl⟩
      · exact ⟨[], by simpa using hend.symm, by simpa using hcut⟩
      · -- the ending would hold the slash in front of the last segment
        rcases hfront with rfl | ⟨way, rfl⟩
        · simp at hcut
        · rw [List.concat_eq_append, ← List.append_assoc] at hcut
          obtain ⟨-, hc⟩ := List.append_inj' hcut rfl
          obtain rfl := List.singleton_inj.1 hc
          exact absurd (by simp [hend]) hending
  · rintro ⟨kept, rfl, rfl⟩
    rw [List.append_assoc]

theorem dropEnding?_append {front : List Char} (hfront : IsFront front) {ending : String}
    (hending : '/' ∉ ending.toList) (last : List Char) :
    dropEnding? ending (front ++ last) = (dropEnding? ending last).map (front ++ ·) := by
  ext base
  rw [dropEnding?_eq_some_iff, append_eq_append_iff_of_isFront hfront hending]
  simp only [Option.map_eq_some_iff, dropEnding?_eq_some_iff]

theorem findSome?_dropEnding?_append {front : List Char} (hfront : IsFront front)
    {endings : List String} (h : ∀ ending ∈ endings, '/' ∉ ending.toList) (last : List Char) :
    endings.findSome? (dropEnding? · (front ++ last)) =
      (endings.findSome? (dropEnding? · last)).map (front ++ ·) := by
  induction endings with
  | nil => rfl
  | cons ending r ih =>
    rw [List.findSome?_cons, List.findSome?_cons, dropEnding?_append hfront (h ending (by simp)),
      ih fun e he => h e (by simp [he])]
    cases dropEnding? ending last <;> rfl

/-- The extension is taken off the last segment. -/
theorem dropExtension_append {front : List Char} (hfront : IsFront front) (last : List Char) :
    dropExtension (front ++ last) = front ++ dropExtension last := by
  unfold dropExtension
  rw [findSome?_dropEnding?_append hfront (by decide)]
  cases sourceExtensions.findSome? (dropEnding? · last) with
  | none => rfl
  | some base =>
    simp only [Option.map_some]
    rw [dropEnding?_append hfront (by decide)]
    cases dropEnding? ".d" base <;> rfl

/-- What was taken off is one of the endings, or nothing. -/
theorem exists_ending (cs : List Char) :
    ∃ ending ∈ "" :: sourceEndings, cs = dropExtension cs ++ ending.toList := by
  unfold dropExtension
  split
  · next base h =>
    obtain ⟨ending, hending, hbase⟩ := List.exists_of_findSome?_eq_some h
    have hcs := dropEnding?_eq_some_iff.1 hbase
    cases hd : dropEnding? ".d" base with
    | none =>
      exact ⟨ending, by simp [sourceEndings, hending], by simpa using hcs⟩
    | some base' =>
      refine ⟨".d" ++ ending, by simp [sourceEndings, hending], ?_⟩
      rw [hcs, dropEnding?_eq_some_iff.1 hd]
      simp
  · exact ⟨"", by simp, by simp⟩

theorem dropExtensionInLine_of_getLast? {cs : List Char} (h : cs.getLast? ≠ some '\n') :
    dropExtensionInLine cs = dropExtension cs := by
  unfold dropExtensionInLine
  split
  · next r hr =>
    rw [← List.head?_reverse, hr] at h
    exact absurd rfl h
  · rfl

/-- The name `index` is left out exactly if it is the last segment, behind a slash. -/
theorem dropEnding?_index_append {front last : List Char} (hfront : IsFront front)
    (hlast : '/' ∉ last) {way : List Char} :
    dropEnding? "/index" (front ++ last) = some way ↔
      front = way ++ ['/'] ∧ last = "index".toList := by
  rw [dropEnding?_eq_some_iff]
  have hsplit : "/index".toList = '/' :: "index".toList := by decide
  rw [hsplit]
  constructor
  · intro h
    rw [← List.singleton_append, ← List.append_assoc,
      append_eq_append_iff_of_isFront hfront (by decide)] at h
    obtain ⟨kept, hkept, hway⟩ := h
    rcases List.eq_nil_or_concat kept with rfl | ⟨kept, c, rfl⟩
    · exact ⟨by simpa using hway, hkept⟩
    · rw [List.concat_eq_append, ← List.append_assoc] at hway
      obtain ⟨-, hc⟩ := List.append_inj' hway rfl
      obtain rfl := List.singleton_inj.1 hc
      exact absurd (by simp [hkept]) hlast
  · rintro ⟨rfl, rfl⟩
    simp

/-! ## The last segment -/

/-- The dot in front of a path is worked off. -/
theorem foldl_climb_dotted (ss : List String) (cs : List Char) :
    (names (dotted cs)).foldl climb ss = (names cs).foldl climb ss := by
  unfold dotted
  split
  · rfl
  · have hdot : names ['.'] = ["."] := by decide
    rw [show '.' :: '/' :: cs = ['.'] ++ '/' :: cs from rfl, names_append_cons, hdot]
    rfl

theorem head?_dotted (cs : List Char) : (dotted cs).head? = some '.' := by
  unfold dotted
  split
  · next h => exact h
  · rfl

/-- A dotted path ends with its last segment. -/
theorem exists_dotted_eq (steps : List String) (last : String) :
    ∃ front, IsFront front ∧
      dotted (ofSegments (steps ++ [last])).toList = front ++ last.toList := by
  have htext : ∃ front, IsFront front ∧
      (ofSegments (steps ++ [last])).toList = front ++ last.toList := by
    by_cases hsteps : steps = []
    · exact ⟨[], .inl rfl, by simp [hsteps, ofSegments]⟩
    · refine ⟨(ofSegments steps).toList ++ ['/'], .inr ⟨_, rfl⟩, ?_⟩
      rw [toList_ofSegments, List.map_append, List.map_singleton,
        intercalate_append_singleton (by simpa using hsteps), toList_ofSegments]
  obtain ⟨front, hfront, htext⟩ := htext
  rw [htext, dotted]
  split
  · exact ⟨front, hfront, rfl⟩
  · refine ⟨'.' :: '/' :: front, .inr ?_, rfl⟩
    rcases hfront with rfl | ⟨way, rfl⟩
    · exact ⟨['.'], rfl⟩
    · exact ⟨'.' :: '/' :: way, rfl⟩

theorem names_append_of_isFront {front : List Char} (hfront : IsFront front) (last : List Char) :
    names (front ++ last) = names front ++ names last := by
  rcases hfront with rfl | ⟨way, rfl⟩
  · rfl
  · simp [names_append_cons]

theorem names_of_isStep {s : String} (h : s = "." ∨ s = ".." ∨ IsName s) :
    names s.toList = [s] := by
  rcases h with rfl | rfl | h
  · decide
  · decide
  · simp [names, Text.pieces_eq_singleton h.no_slash, h.ne_empty]

/-- Climbing along the dotted path ends with its last segment. -/
theorem climb_last_of_climbs {ss ps steps : List String} {last : String} {front : List Char}
    (h : Climbs ss ps (steps ++ [last])) (hfront : IsFront front)
    (hdotted : dotted (ofSegments (steps ++ [last])).toList = front ++ last.toList) :
    climb ((names front).foldl climb ss) last = ps := by
  have hsteps : names (ofSegments (steps ++ [last])).toList = steps ++ [last] := by
    refine names_ofSegments fun s hs => ?_
    rcases h.isStep s hs with rfl | rfl | hs
    · decide
    · decide
    · exact ⟨hs.ne_empty, hs.no_slash⟩
  rw [← h.climb, ← hsteps, ← foldl_climb_dotted ss (ofSegments (steps ++ [last])).toList, hdotted,
    names_append_of_isFront hfront, names_of_isStep (h.isStep last (by simp)), List.foldl_append]
  rfl

/-- The specifier of a path whose last segment is known. -/
theorem specifierOf_eq {relative : String} {front last : List Char} (hfront : IsFront front)
    (hrelative : dotted relative.toList = front ++ last) (hne : last ≠ []) (hline : '\n' ∉ last) :
    specifierOf relative = String.ofList
      ((dropEnding? "/index" (front ++ dropExtension last)).getD
        (front ++ dropExtension last)) := by
  have hlast : (front ++ last).getLast? ≠ some '\n' := by
    rw [List.getLast?_append, List.getLast?_eq_some_getLast hne, Option.some_or]
    exact fun h => hline (Option.some.inj h ▸ List.getLast_mem hne)
  simp only [specifierOf, hrelative, dropExtensionInLine_of_getLast? hlast,
    dropExtension_append hfront]

/-! ## Leading back -/

/-- A dotted text is joined to a directory by climbing. -/
theorem toList_normalize_join_dotted {dir : String} {ss : List String} (hss : ∀ s ∈ ss, IsName s)
    (hdir : dir.toList = rooted 0 ss) {cs : List Char} (hcs : cs.head? = some '.') :
    (normalize (join dir (String.ofList cs))).toList = rooted 0 ((names cs).foldl climb ss) := by
  have hrel : isAbsolute (String.ofList cs) = false := by
    rw [isAbsolute, String.toList_ofList, hcs]
    rfl
  rw [toList_normalize_join hss hdir hrel, String.toList_ofList]

section

variable {dir relative last : String} {ss : List String} {front : List Char}
  (hss : ∀ s ∈ ss, IsName s) (hdir : dir.toList = rooted 0 ss) (hfront : IsFront front)
  (hrelative : dotted relative.toList = front ++ last.toList)

include hss hdir hfront hrelative

/-- Of a path that ends with dots nothing is left out. -/
theorem toList_back_of_dots (hlast : last = "." ∨ last = "..") :
    (normalize (join dir (specifierOf relative))).toList =
      rooted 0 (climb ((names front).foldl climb ss) last) := by
  have hkeep : dropExtension last.toList = last.toList ∧ last.toList ≠ [] ∧
      '\n' ∉ last.toList ∧ '/' ∉ last.toList ∧ last.toList ≠ "index".toList := by
    rcases hlast with rfl | rfl <;> decide
  obtain ⟨hextension, hne, hline, hslash, hindex⟩ := hkeep
  have hnone : dropEnding? "/index" (front ++ last.toList) = none := by
    refine Option.eq_none_iff_forall_ne_some.2 fun way hway => ?_
    exact hindex ((dropEnding?_index_append hfront hslash).1 hway).2
  rw [specifierOf_eq hfront hrelative hne hline, hextension, hnone, Option.getD_none,
    toList_normalize_join_dotted hss hdir (by rw [← hrelative, head?_dotted]),
    names_append_of_isFront hfront, names_of_isStep (or_assoc.1 (.inl hlast)), List.foldl_append]
  rfl

/-- Of a path that ends with a name the extension of that name is left out, and then the name if
it is `index`. -/
theorem toList_back_of_name (hlast : IsName last) (hline : '\n' ∉ last.toList) {base : String}
    (hbase : IsName base) (hextension : dropExtension last.toList = base.toList) :
    (normalize (join dir (specifierOf relative))).toList =
        rooted 0 ((names front).foldl climb ss ++ [base]) ∨
      base = "index" ∧ (normalize (join dir (specifierOf relative))).toList =
        rooted 0 ((names front).foldl climb ss) := by
  have hne : last.toList ≠ [] := by simpa using hlast.ne_empty
  have hhead : (front ++ last.toList).head? = some '.' := by rw [← hrelative, head?_dotted]
  rw [specifierOf_eq hfront hrelative hne hline, hextension]
  cases hindex : dropEnding? "/index" (front ++ base.toList) with
  | none =>
    left
    obtain ⟨ending, -, hsplit⟩ := exists_ending last.toList
    have hkept : front ++ base.toList ≠ [] := by simp [hbase.ne_empty]
    rw [hsplit, hextension, ← List.append_assoc, List.head?_append,
      List.head?_eq_some_head hkept, Option.some_or, ← List.head?_eq_some_head] at hhead
    rw [Option.getD_none, toList_normalize_join_dotted hss hdir hhead,
      names_append_of_isFront hfront, names_of_isStep (.inr (.inr hbase)), List.foldl_append,
      List.foldl_cons, List.foldl_nil, climb_of_isName hbase]
  | some way =>
    right
    obtain ⟨rfl, hname⟩ := (dropEnding?_index_append hfront hbase.no_slash).1 hindex
    have hway : way.head? = some '.' := by
      cases way with
      | nil => simp at hhead
      | cons c r => simpa using hhead
    refine ⟨String.toList_inj.1 hname, ?_⟩
    rw [Option.getD_some, toList_normalize_join_dotted hss hdir hway, names_append_cons, names_nil,
      List.append_nil]

end

/-- The specifier for a model file, joined to the directory of the generated file, is the path of
the model file without an ending that may be left out, or without that ending and `index`. -/
theorem specifier?_leads_back (cwd : String) {file output : String} (hfile : IsRooted file)
    (houtput : IsRooted output) (hline : '\n' ∉ file.toList)
    (hbase : String.ofList (dropExtension (basename file).toList) ∉ ["", ".", ".."]) :
    ∃ specifier, specifier? cwd file output = some specifier ∧
      ∃ ending ∈ "" :: sourceEndings,
        file = normalize (join (dirname output) specifier) ++ ending ∨
        file = join (normalize (join (dirname output) specifier)) "index" ++ ending := by
  obtain ⟨ps, hps, htext⟩ := hfile.exists_names
  obtain ⟨os, hos, houtputText⟩ := houtput.exists_names
  have hdir := toList_dirname_of_rooted hos houtputText
  have hss : ∀ s ∈ os.dropLast, IsName s := fun s hs => hos s (List.dropLast_subset _ hs)
  obtain ⟨steps, hrelative, hclimbs⟩ := exists_relative? cwd hps htext hss hdir
  have hspecifier : specifier? cwd file output = some (specifierOf (ofSegments steps)) := by
    rw [specifier?, absolute_of_rooted cwd hos houtputText, hrelative, Option.map_some]
  refine ⟨_, hspecifier, ?_⟩
  -- the relative path is cut in front of its last segment
  obtain ⟨steps, last, rfl⟩ := (List.eq_nil_or_concat steps).resolve_left hclimbs.ne_nil
  rw [List.concat_eq_append] at hclimbs ⊢
  obtain ⟨front, hfront, hdotted⟩ := exists_dotted_eq steps last
  have hps' := climb_last_of_climbs hclimbs hfront hdotted
  rcases or_assoc.2 (hclimbs.isStep last (by simp)) with hdots | hname
  · refine ⟨"", by simp, .inl ?_⟩
    rw [← String.toList_inj, String.append_empty,
      toList_back_of_dots hss hdir hfront hdotted hdots, hps', htext]
  · rw [climb_of_isName hname] at hps'
    subst hps'
    obtain ⟨text, htexts⟩ := exists_rooted_append ((names front).foldl climb os.dropLast)
    obtain ⟨ending, hending, hsplit⟩ := exists_ending last.toList
    have hlineLast : '\n' ∉ last.toList := fun h => hline (by simp [htext, htexts, h])
    rw [toList_basename_of_rooted hps htext] at hbase
    have hname' : IsName (String.ofList (dropExtension last.toList)) := by
      simp only [List.mem_cons, List.not_mem_nil, or_false, not_or] at hbase
      refine ⟨hbase.1, hbase.2.1, hbase.2.2, fun h => hname.no_slash ?_⟩
      rw [hsplit]
      exact List.mem_append_left _ (by simpa using h)
    refine ⟨ending, hending, ?_⟩
    rcases toList_back_of_name hss hdir hfront hdotted hname hlineLast hname' (by simp) with
      hback | ⟨hindex, hback⟩
    · left
      rw [← String.toList_inj, String.toList_append, hback, htext, htexts, htexts,
        List.append_assoc, String.toList_ofList, ← hsplit]
    · right
      have hjoin := toList_join_of_rooted (fun s hs => hps s (by simp [hs])) hback
        (s := "index") (by decide)
      rw [← String.toList_inj, String.toList_append, hjoin, htext, htexts, htexts,
        List.append_assoc, ← hindex, String.toList_ofList, ← hsplit]

/-- The main file of a directory `index`, as a declaration file: the specifier ends with the name
of the directory. -/
theorem specifier?_leads_back_to_index :
    IsRooted "/project/src/index/index.d.ts" ∧ IsRooted "/project/src/generated/types.ts" ∧
      '\n' ∉ "/project/src/index/index.d.ts".toList ∧
      String.ofList (dropExtension (basename "/project/src/index/index.d.ts").toList) ∉
        ["", ".", ".."] ∧
      (∃ specifier, specifier? "/" "/project/src/index/index.d.ts"
          "/project/src/generated/types.ts" = some specifier ∧
        ∃ ending ∈ "" :: sourceEndings,
          "/project/src/index/index.d.ts" =
            normalize (join (dirname "/project/src/generated/types.ts") specifier) ++ ending ∨
          "/project/src/index/index.d.ts" =
            join (normalize (join (dirname "/project/src/generated/types.ts") specifier)) "index" ++
              ending) ∧
      specifier? "/" "/project/src/index/index.d.ts" "/project/src/generated/types.ts" =
        some "../index" := by
  have hfile : IsRooted "/project/src/index/index.d.ts" := by decide +kernel
  have houtput : IsRooted "/project/src/generated/types.ts" := by decide +kernel
  have hline : '\n' ∉ "/project/src/index/index.d.ts".toList := by decide +kernel
  have hbase : String.ofList (dropExtension (basename "/project/src/index/index.d.ts").toList) ∉
      ["", ".", ".."] := by decide +kernel
  exact ⟨hfile, houtput, hline, hbase, specifier?_leads_back "/" hfile houtput hline hbase,
    by decide +kernel⟩

end ResolverKit.Model
