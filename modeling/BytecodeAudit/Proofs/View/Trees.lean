import Mathlib.Data.List.Count
import Mathlib.Data.List.Forall2
import BytecodeAudit.Proofs.Json.RoundTrip
import BytecodeAudit.View.Report

/-!
# Printed trees and tables

A caller tree is printed with one line for each node: an indentation, which tells for each node
above whether it is the last of its siblings, then a branch, then the label. The lines tell the
labels and their places (`branchList_inj`), whatever the labels are.

The cells of a Markdown row are written as they are, between bars, and read between the bars that
have no backslash before them (`readRow`). So a row is read back exactly if no cell has a bar or a
line break (`readsBack_iff`): reading turns no more backslashes into bars than there are in the
cells (`count_splitCells`).
-/

namespace BytecodeAudit

namespace CallNode

open List

/-! ### Outlines -/

/-- What a printed tree shows: the labels of its lines, as a tree. -/
inductive Outline where
  | node (label : String) (callers : List Outline)

mutual

def callersShown : CallNode → List Outline
  | .mk _ _ _ _ _ cs _ => outlines cs
  | .gap => []

def outlines : List CallNode → List Outline
  | [] => []
  | c :: cs => .node c.label c.callersShown :: outlines cs

end

/-- The outline of a tree. The root shows its name alone. -/
def outline (n : CallNode) : Outline := .node n.name n.callersShown

mutual

def framesBelow : CallNode → List CallNode
  | .mk _ _ _ _ _ cs _ => frames cs
  | .gap => []

def frames : List CallNode → List CallNode
  | [] => []
  | c :: cs => c :: (c.framesBelow ++ frames cs)

end

variable {indent : String} {rest rest' : List String} {cs ds : List CallNode}

lemma branches_eq (indent : String) (n : CallNode) : branches indent n = branchList indent n.children := by
  cases n <;> simp [branches, children, branchList]

lemma callersShown_eq (n : CallNode) : n.callersShown = outlines n.children := by
  cases n <;> simp [callersShown, children, outlines]

def branch (isLast : Bool) : String := if isLast then "└── " else "├── "

def stem (isLast : Bool) : String := if isLast then "    " else "│   "

lemma branchList_cons (indent : String) (c : CallNode) (cs : List CallNode) :
    branchList indent (c :: cs) = (indent ++ branch cs.isEmpty ++ c.label) ::
      (branches (indent ++ stem cs.isEmpty) c ++ branchList indent cs) := by
  cases cs <;> simp [branchList, branch, stem]

/-! ### Lines -/

def IsDrawn (line label : String) : Prop := ∃ drawing, line = drawing ++ label ∧ ∀ c ∈ drawing.toList, c ∈ " │├└─".toList

lemma mem_drawing (isLast : Bool) : ∀ c ∈ (branch isLast).toList ++ (stem isLast).toList, c ∈ " │├└─".toList := by
  cases isLast <;> simp [branch, stem]

mutual

lemma branches_isDrawn (n : CallNode) (indent : String) (h : ∀ c ∈ indent.toList, c ∈ " │├└─".toList) :
    Forall₂ IsDrawn (branches indent n) (n.framesBelow.map label) := by
  match n with
  | .mk _ _ _ _ _ cs _ => exact branchList_isDrawn cs indent h
  | .gap => exact .nil

lemma branchList_isDrawn (cs : List CallNode) (indent : String) (h : ∀ c ∈ indent.toList, c ∈ " │├└─".toList) :
    Forall₂ IsDrawn (branchList indent cs) ((frames cs).map label) := by
  match cs with
  | [] => exact .nil
  | c :: cs =>
    obtain ⟨hbranch, hstem⟩ := forall_mem_append.1 (mem_drawing cs.isEmpty)
    rw [branchList_cons, frames, map_cons, map_append]
    refine .cons ⟨_, rfl, ?_⟩ (rel_append (branches_isDrawn c _ ?_) (branchList_isDrawn cs indent h))
    · rw [String.toList_append, forall_mem_append]
      exact ⟨h, hbranch⟩
    · rw [String.toList_append, forall_mem_append]
      exact ⟨h, hstem⟩

end

/-! ### Reading lines -/

/-- Whether lines do not go on with an indentation. -/
def Stops (indent : String) (rest : List String) : Prop := ∀ l ∈ rest.head?, ¬ indent.toList <+: l.toList

lemma Stops.append (h : Stops indent rest) (s : String) : Stops (indent ++ s) rest := by
  intro l hl hprefix
  rw [String.toList_append] at hprefix
  exact h l hl ((prefix_append _ _).trans hprefix)

lemma stops_branchList (h : Stops indent rest) (cs : List CallNode) :
    Stops (indent ++ stem cs.isEmpty) (branchList indent cs ++ rest) := by
  cases cs with
  | nil => exact h.append _
  | cons c cs =>
    rw [branchList_cons]
    rintro l hl ⟨more, hmore⟩
    cases hl
    simp only [String.toList_append, append_assoc, append_cancel_left_eq] at hmore
    cases cs <;> simp [stem, branch] at hmore

lemma eq_nil_of_stops (h : Stops indent rest) (heq : rest = branchList indent ds ++ rest') : ds = [] := by
  cases ds with
  | nil => rfl
  | cons d ds =>
    rw [branchList_cons] at heq
    subst heq
    refine absurd ?_ (h _ rfl)
    rw [String.toList_append, String.toList_append, append_assoc]
    exact prefix_append _ _

lemma branch_inj {b b' : Bool} {s s' : String} (h : indent ++ branch b ++ s = indent ++ branch b' ++ s') :
    b = b' ∧ s = s' := by
  rw [String.append_assoc, String.append_assoc, String.append_right_inj] at h
  have hbranch : b = b' := by
    have hhead := congrArg (·.toList.head?) h
    simp only [String.toList_append] at hhead
    cases b <;> cases b' <;> first | rfl | exact absurd hhead (by simp [branch])
  subst hbranch
  exact ⟨rfl, (String.append_right_inj _).1 h⟩

mutual

lemma branches_inj (c d : CallNode) (indent : String) {rest rest' : List String} (hrest : Stops indent rest)
    (hrest' : Stops indent rest') (h : branches indent c ++ rest = branches indent d ++ rest') :
    c.callersShown = d.callersShown ∧ rest = rest' := by
  rw [branches_eq indent d] at h
  rw [callersShown_eq d]
  match c with
  | .mk _ _ _ _ _ cs _ => exact branchList_inj cs d.children indent hrest hrest' h
  | .gap =>
    have hnil := eq_nil_of_stops hrest h
    rw [hnil] at h ⊢
    exact ⟨rfl, h⟩

/-- The lines of some callers tell their labels and those below, and where they end. -/
lemma branchList_inj (cs ds : List CallNode) (indent : String) {rest rest' : List String} (hrest : Stops indent rest)
    (hrest' : Stops indent rest') (h : branchList indent cs ++ rest = branchList indent ds ++ rest') :
    outlines cs = outlines ds ∧ rest = rest' := by
  match cs, ds with
  | [], ds =>
    obtain rfl := eq_nil_of_stops hrest h
    exact ⟨rfl, h⟩
  | c :: cs, [] => cases eq_nil_of_stops hrest' h.symm
  | c :: cs, d :: ds =>
    rw [branchList_cons, branchList_cons, cons_append, cons_append, append_assoc, append_assoc] at h
    obtain ⟨hline, hlines⟩ := List.cons.inj h
    obtain ⟨hlast, hlabel⟩ := branch_inj hline
    obtain ⟨hbelow, hlines⟩ := branches_inj c d _ (stops_branchList hrest cs) (hlast ▸ stops_branchList hrest' ds)
      (hlast ▸ hlines)
    obtain ⟨hcs, hends⟩ := branchList_inj cs ds indent hrest hrest' hlines
    rw [outlines, outlines, hlabel, hbelow, hcs]
    exact ⟨rfl, hends⟩

end

/-! ### Printed texts -/

/-- Whether neither the name nor the path of a node has a line break. -/
def IsOneLine (n : CallNode) : Prop := '\n' ∉ n.name.toList ∧ ∀ l ∈ n.location, '\n' ∉ l.path.toList

lemma IsOneLine.notMem_label {n : CallNode} (h : n.IsOneLine) : '\n' ∉ n.label.toList := by
  have hdisplay : ∀ l : Location, '\n' ∉ l.path.toList → '\n' ∉ l.display.toList := by
    intro l hpath
    have hline : '\n' ∉ (toString l.line).toList := by
      rw [Json.toList_toString_int, mem_append, not_or]
      refine ⟨by split <;> decide, fun hmem => absurd (Json.digits_toDigits _ _ hmem) (by decide)⟩
    unfold Location.display
    split
    · rw [String.toList_append, String.toList_append, mem_append, mem_append, not_or, not_or]
      exact ⟨⟨hpath, by decide⟩, hline⟩
    · exact hpath
  obtain ⟨hname, hpath⟩ := h
  rw [label]
  rcases hlocation : n.location with _ | l
  · cases n.truncated <;> simp [hname]
  · cases n.truncated <;> simp [hname, hdisplay l (hpath l hlocation)]

lemma notMem_of_isDrawn {lines labels : List String} (h : Forall₂ IsDrawn lines labels)
    (hlabels : ∀ s ∈ labels, '\n' ∉ s.toList) : ∀ l ∈ lines, '\n' ∉ l.toList := by
  induction h with
  | nil => exact nofun
  | cons hline _ ih =>
    obtain ⟨hlabel, hlabels⟩ := forall_mem_cons.1 hlabels
    obtain ⟨drawing, rfl, hdrawing⟩ := hline
    refine forall_mem_cons.2 ⟨?_, ih hlabels⟩
    rw [String.toList_append, mem_append, not_or]
    exact ⟨fun hmem => absurd (hdrawing _ hmem) (by decide), hlabel⟩

lemma splitOn_join {lines : List String} (h : ∀ l ∈ lines, '\n' ∉ l.toList) :
    (String.join (lines.map (· ++ "\n"))).toList.splitOn '\n' = lines.map String.toList ++ [[]] := by
  induction lines with
  | nil => rfl
  | cons l lines ih =>
    obtain ⟨hl, h⟩ := forall_mem_cons.1 h
    rw [map_cons, String.join_cons, String.toList_append, String.toList_append, append_assoc,
      show "\n".toList = ['\n'] from rfl, singleton_append, splitOn_append_cons_self_of_not_mem hl, ih h]
    rfl

/-- Whether a tree has no gap and no line break in its names and paths. -/
structure IsPrintable (n : CallNode) : Prop where
  hasGap : n.hasGap = false
  isOneLine : ∀ m ∈ n :: n.framesBelow, m.IsOneLine

lemma IsPrintable.notMem {n : CallNode} (h : n.IsPrintable) : ∀ l ∈ n.name :: branches "" n, '\n' ∉ l.toList := by
  obtain ⟨hroot, hbelow⟩ := forall_mem_cons.1 h.isOneLine
  refine forall_mem_cons.2 ⟨hroot.1, notMem_of_isDrawn (branches_isDrawn n "" (by simp)) ?_⟩
  exact forall_mem_map.2 fun m hm => (hbelow m hm).notMem_label

/-- A tree is printed with a line for its name and then one for each node below, in pre-order; and
trees that are printed alike have the same outline. -/
theorem printed_determines_outline {t : CallNode} (ht : t.IsPrintable) :
    ∃ text lines, printed (some t) = .ok text ∧
      text.toList.splitOn '\n' = (t.name :: lines).map String.toList ++ [[]] ∧
      Forall₂ IsDrawn lines (t.framesBelow.map label) ∧
      ∀ u : CallNode, u.IsPrintable → printed (some u) = .ok text → u.outline = t.outline := by
  have hprinted {n : CallNode} (hn : n.IsPrintable) : printed (some n) = .ok n.print := by
    rw [printed, hn.hasGap]
    rfl
  refine ⟨t.print, branches "" t, hprinted ht, splitOn_join ht.notMem, branches_isDrawn t "" (by simp), fun u hu h => ?_⟩
  have hlines : (u.name :: branches "" u).map String.toList = (t.name :: branches "" t).map String.toList := by
    have htext := congrArg (·.toList.splitOn '\n') (Except.ok.inj ((hprinted hu).symm.trans h))
    simp only [print, splitOn_join hu.notMem, splitOn_join ht.notMem] at htext
    exact append_cancel_right htext
  obtain ⟨hname, hbranches⟩ := List.cons.inj (map_injective_iff.2 (fun _ _ => String.toList_inj.1) hlines)
  have hstops : Stops "" [] := by rintro l ⟨⟩
  rw [outline, outline, hname, (branches_inj u t "" hstops hstops (by rw [hbranches])).1]

/-- A tree whose labels look like drawing. -/
def drawnNames : CallNode :=
  .mk "├── a" "" "" "" none [.mk "    └── b" "" "" "" (some { path := "│.cs", line := 3 }) [named "│"] false,
    .mk " ..." "" "" "" none [] true] false

theorem printed_determines_outline_drawnNames : drawnNames.IsPrintable ∧
    printed (some drawnNames) = .ok "├── a\n├──     └── b (│.cs:3)\n│   └── │\n└──  ... ...\n" ∧
    ∀ u : CallNode, u.IsPrintable → printed (some u) = printed (some drawnNames) → u.outline = drawnNames.outline := by
  have hdrawn : drawnNames.IsPrintable := ⟨rfl, by simp [drawnNames, framesBelow, frames, IsOneLine, name, location, named]⟩
  obtain ⟨text, -, htext, -, -, hdetermines⟩ := printed_determines_outline hdrawn
  exact ⟨hdrawn, congrArg Except.ok (by decide), fun u hu h => hdetermines u hu (h.trans htext)⟩

end CallNode

/-! ### Markdown -/

namespace Table

open List

/-- The parts of a line between its bars. A bar behind a backslash belongs to a part. -/
def splitCells : List Char → List (List Char)
  | [] => [[]]
  | '\\' :: '|' :: cs => (splitCells cs).modifyHead ('|' :: ·)
  | '|' :: cs => [] :: splitCells cs
  | c :: cs => (splitCells cs).modifyHead (c :: ·)

/-- A cell without the blanks around it that a table is written with. -/
def unpad (cell : List Char) : List Char :=
  let cell := if cell.head? = some ' ' then cell.tail else cell
  if cell.getLast? = some ' ' then cell.dropLast else cell

/-- The cells of a line of a Markdown table. -/
def readRow (line : String) : List (List Char) := ((splitCells line.toList).tail.dropLast).map unpad

/-- Whether a row is written on one line, and its cells are read from there. -/
def ReadsBack (row : List String) : Prop :=
  ∃ line : String, markdownLine row = line ++ "\n" ∧ '\n' ∉ line.toList ∧ readRow line = row.map String.toList

/-! ### Rows that are read back -/

lemma splitCells_append {cs : List Char} (h : '|' ∉ cs) (rest : List Char) :
    splitCells (cs ++ ' ' :: '|' :: rest) = (cs ++ [' ']) :: splitCells rest := by
  induction cs with
  | nil => rfl
  | cons c cs ih =>
    rw [mem_cons, not_or] at h
    rw [cons_append, splitCells, ih h.2]
    · rfl
    · intro _ _ hcs
      rcases cs with _ | ⟨d, cs⟩
      · cases hcs
      · exact h.2 ((List.cons.inj hcs).1 ▸ mem_cons_self)
    · exact fun hc => h.1 hc.symm

lemma unpad_padded (cs : List Char) : unpad (' ' :: cs ++ [' ']) = cs := by
  simp [unpad]

def rowText (row : List String) : String := String.join (row.map fun cell => " " ++ cell ++ " |")

variable {row : List String}

lemma markdownLine_eq (h : row ≠ []) : markdownLine row = "|" ++ rowText row ++ "\n" := by
  have hcells : ∀ row ≠ [], " " ++ String.intercalate " | " row ++ " |" = rowText row := by
    intro row h
    induction row with
    | nil => contradiction
    | cons cell row ih =>
      rcases row with _ | ⟨cell', row⟩
      · simp [rowText, String.join_cons]
      · have hrest := ih (cons_ne_nil _ _)
        rw [rowText, map_cons, String.join_cons, ← rowText, ← hrest, String.intercalate_cons_cons,
          show " | " = " |" ++ " " from rfl]
        simp only [String.append_assoc]
  rw [← hcells row h, markdownLine]
  simp [String.append_assoc, ← String.toList_inj]

lemma splitCells_rowText (h : ∀ cell ∈ row, '|' ∉ cell.toList) :
    splitCells (rowText row).toList = row.map (fun cell => ' ' :: cell.toList ++ [' ']) ++ [[]] := by
  induction row with
  | nil => rfl
  | cons cell row ih =>
    obtain ⟨hcell, h⟩ := forall_mem_cons.1 h
    have htext : (rowText (cell :: row)).toList = (' ' :: cell.toList) ++ ' ' :: '|' :: (rowText row).toList := by
      simp [rowText, String.join_cons]
    rw [htext, splitCells_append (by simpa using hcell), ih h]
    rfl

/-! ### Rows that are not -/

lemma count_modifyHead (x c : Char) {parts : List (List Char)} (h : parts ≠ []) :
    (parts.modifyHead (c :: ·)).flatten.count x = (c :: parts.flatten).count x := by
  obtain ⟨part, parts, rfl⟩ := exists_cons_of_ne_nil h
  rfl

lemma splitCells_ne_nil (cs : List Char) : splitCells cs ≠ [] := by
  fun_induction splitCells cs <;> simp_all

lemma count_splitCells (cs : List Char) :
    (splitCells cs).flatten.count '\\' + (splitCells cs).flatten.count '|' = cs.count '\\' := by
  fun_induction splitCells cs with
  | case1 => rfl
  | case2 cs ih =>
    simp only [count_modifyHead _ _ (splitCells_ne_nil cs), count_cons, ← ih]
    simp [Nat.add_assoc]
  | case3 cs ih => simpa using ih
  | case4 c cs _ hbar ih =>
    simp only [count_modifyHead _ _ (splitCells_ne_nil cs), count_cons]
    by_cases hc : c = '\\' <;> simp_all
    omega

lemma unpad_sublist (part : List Char) : unpad part <+ part := by
  unfold unpad
  extract_lets rest
  have hrest : rest <+ part := by
    unfold rest
    split
    · exact tail_sublist _
    · exact .refl _
  split
  · exact (dropLast_sublist _).trans hrest
  · exact hrest

lemma count_unpad_le (x : Char) {parts parts' : List (List Char)} (h : parts' <+ parts) :
    (parts'.map unpad).flatten.count x ≤ parts.flatten.count x := by
  induction h with
  | slnil => exact Nat.le_refl _
  | cons part _ ih =>
    rw [flatten_cons, count_append]
    exact Nat.le_add_left_of_le ih
  | cons_cons part _ ih =>
    rw [map_cons, flatten_cons, flatten_cons, count_append, count_append]
    exact Nat.add_le_add ((unpad_sublist part).count_le x) ih

lemma count_rowText (row : List String) :
    (rowText row).toList.count '\\' = (row.map String.toList).flatten.count '\\' := by
  induction row with
  | nil => rfl
  | cons cell row ih =>
    rw [map_cons, flatten_cons, count_append, ← ih]
    simp [rowText, String.join_cons]

lemma readsBack_iff :
    ReadsBack row ↔ row ≠ [] ∧ ∀ cell ∈ row, '|' ∉ cell.toList ∧ '\n' ∉ cell.toList := by
  constructor
  · rintro ⟨line, hline, hbreak, hread⟩
    have hrow : row ≠ [] := by
      rintro rfl
      obtain rfl : "|  |" = line := (String.append_left_inj "\n").1 hline
      exact absurd hread (by decide)
    rw [markdownLine_eq hrow, String.append_left_inj] at hline
    subst hline
    have hparts := count_splitCells ("|" ++ rowText row).toList
    have hbars : (row.map String.toList).flatten.count '|' = 0 := by
      have hle (x : Char) : (row.map String.toList).flatten.count x ≤
          (splitCells ("|" ++ rowText row).toList).flatten.count x := by
        rw [← hread]
        exact count_unpad_le x ((dropLast_sublist _).trans (tail_sublist _))
      have hline : ("|" ++ rowText row).toList.count '\\' = (row.map String.toList).flatten.count '\\' := by
        rw [← count_rowText]
        simp
      have := hle '|'
      have := hle '\\'
      omega
    refine ⟨hrow, fun cell hcell => ⟨fun hbar => ?_, fun hmem => hbreak ?_⟩⟩
    · exact count_eq_zero.1 hbars (mem_flatten.2 ⟨_, mem_map_of_mem hcell, hbar⟩)
    · simp only [rowText, String.toList_append, String.toList_join, mem_append, mem_flatMap]
      exact .inr ⟨_, mem_map_of_mem hcell, by simp [hmem]⟩
  · rintro ⟨hrow, hcells⟩
    refine ⟨"|" ++ rowText row, markdownLine_eq hrow, ?_, ?_⟩
    · simp only [rowText, String.toList_append, String.toList_join, mem_append, mem_flatMap, not_or]
      refine ⟨by decide, ?_⟩
      rintro ⟨_, hmem, hbreak⟩
      obtain ⟨cell, hcell, rfl⟩ := mem_map.1 hmem
      simp [(hcells cell hcell).2] at hbreak
    · have hsplit : splitCells ("|" ++ rowText row).toList = [] :: splitCells (rowText row).toList := by
        simp [splitCells]
      rw [readRow, hsplit, splitCells_rowText fun cell hcell => (hcells cell hcell).1, tail_cons, dropLast_concat, map_map]
      exact map_congr_left fun cell _ => unpad_padded cell.toList

/-- The rows of a table are written one after another. Each of them is on one line and read back
from there, exactly if no cell has a bar or a line break and no row is empty. -/
theorem markdown_readsBack_iff (t : Table) :
    (∃ front back, t.markdown = front ++ String.join (t.rows.map markdownLine) ++ back) ∧
      ((∀ row ∈ t.rows, ReadsBack row) ↔
        ∀ row ∈ t.rows, row ≠ [] ∧ ∀ cell ∈ row, '|' ∉ cell.toList ∧ '\n' ∉ cell.toList) := by
  refine ⟨?_, forall₂_congr fun row _ => readsBack_iff⟩
  rw [markdown, String.append_assoc]
  exact ⟨_, _, rfl⟩

/-- A view of one issue, whose description has a bar. -/
def barredView : IssuesView where
  report := { issues := [
    { category := Category.code, severity := .minor, description := "a | b", descriptorId := "PAC0001" }] }

theorem not_readsBack_barredView :
    barredView.rows.map IssueRow.cells = [["minor", "PAC0001", "a | b", ""]] ∧
      ¬ ReadsBack ["minor", "PAC0001", "a | b", ""] := by
  refine ⟨by decide +kernel, fun h => ?_⟩
  exact absurd (readsBack_iff.1 h).2 (by decide)

end Table

end BytecodeAudit
