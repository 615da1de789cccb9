import Flattener.Files.Tree
import Mathlib.Data.String.Basic

/-!
# Plain paths lead the same way

A path is its root and parts between slashes (`pathParts_eq`, `pathParts_root`). The
plain form of a path keeps the root, and the parts that lead anywhere
(`exists_plainPath_eq`). So it leads where the path leads, if that leads anywhere
(`FileTree.find_plainPath`): it may lead further, as a file is not asked to be a
directory when an empty part behind it is left out.
-/

namespace Flattener

/-! ## Parts -/

section

open String

variable (front part rest : List Char) (parts : List String)

/-- At the end of a text, the last part is closed. -/
theorem splitOnAux_nil :
    splitOnAux (ofList (front ++ part ++ [])) "/" ⟨utf8Len front⟩
        ⟨utf8Len front + utf8Len part⟩ 0 parts = parts.reverse ++ [ofList part] := by
  have hend : Pos.Raw.atEnd (ofList (front ++ part ++ [])) ⟨utf8Len front + utf8Len part⟩ = true := by
    simp [-ofList_append]
  rw [splitOnAux, if_pos hend, extract_of_valid front part [], List.reverse_cons]

theorem not_atEnd_cons (c : Char) : ¬Pos.Raw.atEnd (ofList (front ++ part ++ c :: rest))
    ⟨utf8Len front + utf8Len part⟩ = true := by
  have hsize := c.utf8Size_pos
  simp [-ofList_append]
  omega

/-- A slash closes a part, and the next one begins behind it. -/
theorem splitOnAux_slash :
    splitOnAux (ofList (front ++ part ++ '/' :: rest)) "/" ⟨utf8Len front⟩
        ⟨utf8Len front + utf8Len part⟩ 0 parts =
      splitOnAux (ofList (front ++ part ++ ['/'] ++ [] ++ rest)) "/"
        ⟨utf8Len (front ++ part ++ ['/'])⟩
        ⟨utf8Len (front ++ part ++ ['/']) + utf8Len []⟩ 0 (ofList part :: parts) := by
  have hget := get_of_valid (front ++ part) ('/' :: rest)
  have hnext := next_of_valid (front ++ part) '/' rest
  have hmet : (('/' :: rest).headD default == Pos.Raw.get "/" 0) = true := rfl
  have hafter : Pos.Raw.next "/" 0 = ⟨1⟩ := by decide
  have hlast : Pos.Raw.atEnd "/" ⟨1⟩ = true := by decide
  have hback : (⟨utf8Len front + utf8Len part + '/'.utf8Size⟩ : Pos.Raw).unoffsetBy ⟨1⟩ =
      ⟨utf8Len front + utf8Len part⟩ := by
    rw [Pos.Raw.unoffsetBy]
    rfl
  rw [utf8Len_append] at hget hnext
  rw [splitOnAux, if_neg (not_atEnd_cons front part rest '/'), hget, if_pos hmet, hnext, hafter,
    if_pos hlast, hback, extract_of_valid front part ('/' :: rest)]
  simp [-ofList_append, Nat.add_assoc]

/-- All other characters continue a part. -/
theorem splitOnAux_cons {c : Char} (hc : c ≠ '/') :
    splitOnAux (ofList (front ++ part ++ c :: rest)) "/" ⟨utf8Len front⟩
        ⟨utf8Len front + utf8Len part⟩ 0 parts =
      splitOnAux (ofList (front ++ (part ++ [c]) ++ rest)) "/" ⟨utf8Len front⟩
        ⟨utf8Len front + utf8Len (part ++ [c])⟩ 0 parts := by
  have hget := get_of_valid (front ++ part) (c :: rest)
  have hnext := next_of_valid (front ++ part) c rest
  have hslash : Pos.Raw.get "/" 0 = '/' := by decide
  have hsame : (⟨utf8Len front + utf8Len part⟩ : Pos.Raw).unoffsetBy 0 =
      ⟨utf8Len front + utf8Len part⟩ := by
    rw [Pos.Raw.unoffsetBy]
    rfl
  rw [utf8Len_append] at hget hnext
  rw [splitOnAux, if_neg (not_atEnd_cons front part rest c), hget, hslash,
    if_neg (by simpa using hc), hsame, hnext]
  simp [-ofList_append, Nat.add_assoc]

/-- Parts are split off a text in the order of its characters. -/
theorem splitOnAux_eq :
    splitOnAux (ofList (front ++ part ++ rest)) "/" ⟨utf8Len front⟩
        ⟨utf8Len front + utf8Len part⟩ 0 parts =
      parts.reverse ++ (List.splitOnPPrepend (· == '/') rest part.reverse).map ofList := by
  induction rest generalizing front part parts with
  | nil =>
    rw [splitOnAux_nil, List.splitOnPPrepend_nil, List.reverse_reverse]
    rfl
  | cons c rest ih =>
    rw [List.splitOnPPrepend_cons_eq_if]
    by_cases hc : c = '/'
    · rw [hc, splitOnAux_slash, ih, if_pos (beq_self_eq_true '/'), List.reverse_cons,
        List.append_assoc, List.reverse_nil, List.splitOnPPrepend_nil_right, List.map_cons,
        List.reverse_reverse]
      rfl
    · rw [splitOnAux_cons _ _ _ _ hc, ih, if_neg (by simpa using hc), List.reverse_append]
      rfl

end

/-- The parts of a path are the stretches of its characters between slashes. -/
theorem pathParts_eq (path : String) :
    pathParts path = (path.toList.splitOn '/').map String.ofList := by
  have hall := splitOnAux_eq [] [] path.toList []
  rw [List.nil_append, List.nil_append, String.ofList_toList] at hall
  rw [pathParts, String.splitOn, if_neg (by decide)]
  exact hall

theorem pathParts_ne_nil (path : String) : pathParts path ≠ [] := by
  rw [pathParts_eq]
  exact mt List.map_eq_nil_iff.1 (List.splitOn_ne_nil _ _)

/-- A slash in front stands behind an empty part. -/
theorem pathParts_slash (path : String) : pathParts ("/" ++ path) = "" :: pathParts path := by
  rw [pathParts_eq, pathParts_eq, String.toList_append]
  show ((List.splitOn '/' ('/' :: path.toList)).map String.ofList) = _
  rw [List.splitOn_cons_eq_if_modifyHead, if_pos (by rfl)]
  rfl

/-- No part has a slash. -/
theorem slash_not_mem_of_mem_pathParts {path part : String} (h : part ∈ pathParts path) :
    '/' ∉ part.toList := by
  rw [pathParts_eq, List.mem_map] at h
  obtain ⟨chars, hchars, rfl⟩ := h
  rw [String.toList_ofList]
  generalize path.toList = text at hchars
  induction text generalizing chars with
  | nil =>
    rw [List.splitOn_nil, List.mem_singleton] at hchars
    rw [hchars]
    exact List.not_mem_nil
  | cons c text ih =>
    rw [List.splitOn_cons_eq_if_modifyHead] at hchars
    split at hchars
    · rcases List.mem_cons.1 hchars with rfl | hchars
      · exact List.not_mem_nil
      · exact ih chars hchars
    · next hc =>
      obtain ⟨first, others, hsplit⟩ := List.exists_cons_of_ne_nil (List.splitOn_ne_nil '/' text)
      rw [hsplit, List.modifyHead_cons] at hchars
      rw [hsplit] at ih
      rcases List.mem_cons.1 hchars with rfl | hchars
      · rw [List.mem_cons, not_or]
        exact ⟨fun heq => hc (beq_iff_eq.2 heq.symm), ih first List.mem_cons_self⟩
      · exact ih chars (List.mem_cons_of_mem _ hchars)

/-- Parts that are joined by slashes are the parts again. -/
theorem pathParts_intercalate {parts : List String} (hne : parts ≠ [])
    (h : ∀ part ∈ parts, '/' ∉ part.toList) : pathParts ("/".intercalate parts) = parts := by
  have hchars : ∀ chars ∈ parts.map String.toList, '/' ∉ chars := by
    intro chars hmem
    obtain ⟨part, hpart, rfl⟩ := List.mem_map.1 hmem
    exact h part hpart
  have hslash : "/".toList = ['/'] := rfl
  rw [pathParts_eq, String.toList_intercalate, hslash,
    List.splitOn_intercalate '/' hchars (mt List.map_eq_nil_iff.1 hne), List.map_map]
  exact (List.map_congr_left fun part _ => String.ofList_toList).trans (List.map_id parts)

/-! ## Roots -/

/-- The roots that a path can have. -/
def pathRoots : List String :=
  ["", "/", "//"]

/-- A path does not go on with a slash where its root ends. -/
def Rootless (path : String) : Prop :=
  path.toList.head? ≠ some '/'

/-- A path begins with its root. -/
theorem exists_root (path : String) :
    ∃ rest, path = pathRoot path ++ rest ∧ pathRoot path ∈ pathRoots := by
  have hrest {root : String} {chars : List Char} (h : path.toList = root.toList ++ chars) :
      path = root ++ String.ofList chars := by
    rw [← String.toList_inj, h, String.toList_append, String.toList_ofList]
  rw [pathRoot]
  split
  · next htext => exact ⟨_, hrest htext, by decide⟩
  · next htext => exact ⟨_, hrest htext, by decide⟩
  · next htext => exact ⟨_, hrest htext, by decide⟩
  · exact ⟨path, String.empty_append.symm, by decide⟩

/-- A root in front of what has none is the root of the path. -/
theorem pathRoot_append {root rest : String} (hroot : root ∈ pathRoots) (hrest : Rootless rest) :
    pathRoot (root ++ rest) = root := by
  rw [Rootless] at hrest
  rw [pathRoot, String.toList_append]
  cases htext : rest.toList with
  | nil =>
    simp only [pathRoots, List.mem_cons, List.not_mem_nil, or_false] at hroot
    rcases hroot with rfl | rfl | rfl <;> rfl
  | cons c others =>
    have hc : c ≠ '/' := fun hslash => hrest (by rw [htext, hslash]; rfl)
    simp only [pathRoots, List.mem_cons, List.not_mem_nil, or_false] at hroot
    rcases hroot with rfl | rfl | rfl <;> simp [hc]

/-- The slashes of a root stand behind empty parts. -/
theorem pathParts_root {root : String} (hroot : root ∈ pathRoots) (rest : String) :
    pathParts (root ++ rest) = List.replicate root.length "" ++ pathParts rest := by
  simp only [pathRoots, List.mem_cons, List.not_mem_nil, or_false] at hroot
  rcases hroot with rfl | rfl | rfl
  · rw [String.empty_append]
    rfl
  · exact pathParts_slash rest
  · have hslashes : "//" = "/" ++ "/" := by decide
    rw [hslashes, String.append_assoc, pathParts_slash, pathParts_slash]
    rfl

/-! ## Plain paths -/

/-- A part that leads to some other place than the one it stands at. -/
def leads (part : String) : Bool :=
  part ≠ "" ∧ part ≠ "."

theorem not_leads {part : String} : ¬leads part = true ↔ part = "" ∨ part = "." := by
  rw [leads, decide_eq_true_eq, not_and_or, not_not, not_not]

/-- Parts in a row take no more characters if some of them are left out. -/
theorem intercalate_sublist {α : Type} {separator : List α} {lists lists' : List (List α)}
    (h : lists.Sublist lists') : (separator.intercalate lists).Sublist (separator.intercalate lists') := by
  induction h with
  | slnil => exact List.Sublist.refl _
  | @cons lists lists' list h ih =>
    by_cases hlast : lists' = []
    · subst hlast
      rw [List.sublist_nil.1 h]
      exact List.nil_sublist _
    · rw [List.intercalate_cons_of_ne_nil hlast]
      exact ih.trans (List.sublist_append_right _ _)
  | @cons_cons lists lists' list h ih =>
    by_cases hlast : lists = []
    · subst hlast
      rw [List.intercalate_singleton]
      by_cases hlast' : lists' = []
      · rw [hlast', List.intercalate_singleton]
      · rw [List.intercalate_cons_of_ne_nil hlast', List.append_assoc]
        exact List.sublist_append_left _ _
    · have hlast' : lists' ≠ [] := fun hnil => hlast (List.sublist_nil.1 (hnil ▸ h))
      rw [List.intercalate_cons_of_ne_nil hlast, List.intercalate_cons_of_ne_nil hlast']
      exact List.Sublist.append_left ih _

section

variable {parts : List String} {path rest plain : String}

/-- Parts that lead anywhere and have no slashes begin with no slash when they are joined. -/
theorem rootless_intercalate (h : ∀ part ∈ parts, leads part = true ∧ '/' ∉ part.toList) :
    Rootless ("/".intercalate parts) := by
  cases parts with
  | nil => exact nofun
  | cons first others =>
    obtain ⟨hleads, hslash⟩ := h first List.mem_cons_self
    obtain ⟨behind, hbehind⟩ : ∃ behind, ("/".intercalate (first :: others)).toList =
        first.toList ++ behind := by
      by_cases hlast : others = []
      · exact ⟨[], by rw [hlast, String.intercalate_singleton, List.append_nil]⟩
      · rw [String.intercalate_cons_of_ne_nil hlast, String.toList_append, String.toList_append,
          List.append_assoc]
        exact ⟨_, rfl⟩
    rw [Rootless, hbehind]
    cases htext : first.toList with
    | nil =>
      rw [String.toList_eq_nil_iff.1 htext] at hleads
      cases hleads
    | cons c text =>
      rw [htext] at hslash
      exact fun hc => hslash (Option.some.inj hc ▸ List.mem_cons_self)

/-- Leaving parts out makes a path no longer. -/
theorem utf8ByteSize_intercalate_le (h : parts.Sublist (pathParts path)) :
    ("/".intercalate parts).utf8ByteSize ≤ path.utf8ByteSize := by
  have hchars : (pathParts path).map String.toList = path.toList.splitOn '/' := by
    rw [pathParts_eq, List.map_map]
    exact (List.map_congr_left fun _ _ => String.toList_ofList).trans (List.map_id _)
  have hsublist : (['/'].intercalate (parts.map String.toList)).Sublist _ :=
    intercalate_sublist (h.map String.toList)
  rw [hchars, List.intercalate_splitOn] at hsublist
  rw [← String.utf8Len_toList, ← String.utf8Len_toList, String.toList_intercalate]
  exact String.utf8Len_le_of_sublist hsublist

/-- The plain form of a path is its root and plain text behind it, of the parts that lead
    anywhere, or of one that does not if there are none. -/
structure PlainForm (path rest plain : String) : Prop where
  eq : plainPath path = pathRoot path ++ plain
  ne : plainPath path ≠ ""
  short : (plainPath path).utf8ByteSize ≤ path.utf8ByteSize
  rootless : Rootless plain
  parts : pathParts plain = (pathParts rest).filter leads ∨
    (pathParts rest).filter leads = [] ∧ ∃ part, pathParts plain = [part] ∧ ¬leads part = true

theorem plainPath_eq (hpath : path = pathRoot path ++ rest) (hroot : pathRoot path ∈ pathRoots) :
    plainPath path =
      if pathRoot path = "" ∧ ((pathParts rest).filter leads).isEmpty then "."
      else pathRoot path ++ "/".intercalate ((pathParts rest).filter leads) := by
  have hidle : (List.replicate (pathRoot path).length "").filter leads = [] := by
    refine List.filter_eq_nil_iff.2 fun part hpart => ?_
    rw [List.eq_of_mem_replicate hpart]
    decide
  have hkept : (pathParts path).filter leads = (pathParts rest).filter leads := by
    nth_rewrite 1 [hpath]
    rw [pathParts_root hroot, List.filter_append, hidle, List.nil_append]
  rw [← hkept]
  rfl

/-- Without a root and without parts that lead anywhere, a plain path is a dot. -/
theorem plainForm_dot (hne : path ≠ "") (hroot : pathRoot path = "")
    (hnone : (pathParts rest).filter leads = []) (hplain : plainPath path = ".") :
    PlainForm path rest "." where
  eq := by
    rw [hplain, hroot]
    rfl
  ne := by
    rw [hplain]
    decide
  short := by
    rw [hplain]
    exact Nat.pos_of_ne_zero (mt String.utf8ByteSize_eq_zero_iff.1 hne)
  rootless := by
    rw [Rootless]
    decide
  parts := .inr ⟨hnone, ".", pathParts_eq ".", by decide⟩

/-- Otherwise it is what its parts are joined to. -/
theorem plainForm_joined (hpath : path = pathRoot path ++ rest)
    (hsome : pathRoot path = "" → (pathParts rest).filter leads ≠ [])
    (hplain : plainPath path = pathRoot path ++ "/".intercalate ((pathParts rest).filter leads)) :
    PlainForm path rest ("/".intercalate ((pathParts rest).filter leads)) := by
  have hslash : ∀ part ∈ (pathParts rest).filter leads, leads part = true ∧ '/' ∉ part.toList :=
    fun part hpart => ⟨List.of_mem_filter hpart,
      slash_not_mem_of_mem_pathParts (List.mem_of_mem_filter hpart)⟩
  have hparts (hne : (pathParts rest).filter leads ≠ []) :
      pathParts ("/".intercalate ((pathParts rest).filter leads)) =
        (pathParts rest).filter leads :=
    pathParts_intercalate hne fun part hpart => (hslash part hpart).2
  have hempty : pathParts "" = [""] := pathParts_eq ""
  refine ⟨hplain, fun hnil => ?_, ?_, rootless_intercalate hslash, ?_⟩
  · obtain ⟨hroot, hjoined⟩ := String.append_eq_empty_iff.1 (hplain.symm.trans hnil)
    have hall := hparts (hsome hroot)
    rw [hjoined, hempty] at hall
    exact absurd (hslash "" (hall ▸ List.mem_singleton_self "")).1 (by decide)
  · have hrest := utf8ByteSize_intercalate_le
      (List.filter_sublist (l := pathParts rest) (p := leads))
    have hsize := congrArg String.utf8ByteSize hpath
    rw [String.utf8ByteSize_append] at hsize
    rw [hplain, String.utf8ByteSize_append]
    omega
  · by_cases hnil : (pathParts rest).filter leads = []
    · refine .inr ⟨hnil, "", ?_, by decide⟩
      rw [hnil]
      exact hempty
    · exact .inl (hparts hnil)

theorem exists_plainForm (hne : path ≠ "") (hpath : path = pathRoot path ++ rest)
    (hroot : pathRoot path ∈ pathRoots) : ∃ plain, PlainForm path rest plain := by
  have hplain := plainPath_eq hpath hroot
  split at hplain
  · next hnone => exact ⟨".", plainForm_dot hne hnone.1 (List.isEmpty_iff.1 hnone.2) hplain⟩
  · next hsome =>
    exact ⟨_, plainForm_joined hpath (fun h hnil => hsome ⟨h, List.isEmpty_iff.2 hnil⟩) hplain⟩

end

/-! ## Where plain paths lead -/

namespace FileTree

variable {t : FileTree} {path other part : String} {parts : List String} {place last : Place}

/-- A part that does not lead anywhere makes no difference in a directory. -/
theorem follow_idle (hplace : t.at? place = some .directory) (hpart : ¬leads part = true) :
    t.follow path place (part :: parts) = t.follow path place parts := by
  have hidle := not_leads.1 hpart
  have hlength : ¬nameLimit < part.utf8ByteSize := by
    rcases hidle with rfl | rfl <;> decide
  rw [follow, hplace]
  dsimp only
  rw [if_neg hlength, Place.step, if_pos hidle]

theorem follow_replicate (hplace : t.at? place = some .directory) (n : Nat) :
    t.follow path place (List.replicate n "" ++ parts) = t.follow path place parts := by
  induction n with
  | zero => rfl
  | succ n ih =>
    rw [List.replicate_succ, List.cons_append, follow_idle hplace (by decide), ih]

/-- Every part stands in a directory. -/
theorem at?_of_follow_cons (h : t.follow path place (part :: parts) = .ok last) :
    t.at? place = some .directory := by
  rw [follow] at h
  split at h
  · next hplace => exact hplace
  · cases h
  · cases h

/-- Parts that do not lead anywhere can be left out. -/
theorem follow_filter (h : t.follow path place parts = .ok last) :
    t.follow other place (parts.filter leads) = .ok last := by
  induction parts generalizing place with
  | nil => exact h
  | cons part parts ih =>
    have hplace := at?_of_follow_cons h
    by_cases hpart : leads part = true
    · rw [List.filter_cons_of_pos hpart, follow, hplace]
      rw [follow, hplace] at h
      dsimp only at h ⊢
      split at h
      · cases h
      · next hlength =>
        rw [if_neg hlength]
        exact ih h
    · rw [List.filter_cons_of_neg hpart]
      rw [follow_idle hplace hpart] at h
      exact ih h

/-- Where a path leads, its plain form leads, too. -/
theorem find_plainPath (h : t.find path = .ok place) : t.find (plainPath path) = .ok place := by
  obtain ⟨rest, hpath, hroot⟩ := exists_root path
  have hparts := pathParts_root hroot rest
  rw [← hpath] at hparts
  rw [find] at h ⊢
  split at h
  · cases h
  next hne =>
  split at h
  · cases h
  next hlength =>
  obtain ⟨plain, hplain⟩ := exists_plainForm hne hpath hroot
  have hlength' : ¬pathLimit < (plainPath path).utf8ByteSize :=
    Nat.not_lt.2 (hplain.short.trans (Nat.not_lt.1 hlength))
  rw [if_neg hplain.ne, if_neg hlength', hplain.eq, pathRoot_append hroot hplain.rootless,
    pathParts_root hroot]
  generalize (if pathRoot path = "" then Place.inside [] else .outside) = start at h ⊢
  -- a path has a part, which stands in the directory that the path starts in
  have hstart : t.at? start = some .directory := by
    obtain ⟨first, others, hcons⟩ := List.exists_cons_of_ne_nil (pathParts_ne_nil path)
    rw [hcons] at h
    exact at?_of_follow_cons h
  rw [hparts, follow_replicate hstart] at h
  rw [follow_replicate hstart]
  rcases hplain.parts with hkept | ⟨hnone, part, hpart, hidle⟩
  · rw [hkept]
    exact follow_filter h
  · have hhere : t.follow (pathRoot path ++ plain) start ((pathParts rest).filter leads) = .ok place :=
      follow_filter h
    rw [hnone] at hhere
    rw [hpart, follow_idle hstart hidle]
    exact hhere

/-- What can be read by a path can be read by its plain form. -/
theorem read_plainPath {bytes : List UInt8} (h : t.read path = .ok bytes) :
    t.read (plainPath path) = .ok bytes := by
  rw [read] at h ⊢
  cases hfind : t.find path with
  | error error =>
    rw [hfind] at h
    cases h
  | ok place =>
    rw [hfind] at h
    rw [find_plainPath hfind]
    dsimp only [bind, Except.bind] at h ⊢
    split at h
    · exact h
    · cases h
    · cases h

/-- Where the plain form of a path can be written to, the path does not lead to a
    directory. -/
theorem kindOf_ne_directory_of_write {t' : FileTree} {bytes : List UInt8}
    (h : t.write (plainPath path) bytes = .ok t') : t.kindOf path ≠ .ok .directory := by
  intro hkind
  rw [kindOf] at hkind
  cases hfind : t.find path with
  | error error =>
    rw [hfind] at hkind
    cases hkind
  | ok place =>
    rw [hfind] at hkind
    rw [write, find_plainPath hfind] at h
    dsimp only [bind, Except.bind] at h hkind
    split at hkind
    · next hentry =>
      rw [hentry] at h
      cases h
    · cases hkind
    · cases hkind

end FileTree

end Flattener
