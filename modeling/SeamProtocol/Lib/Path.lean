import Mathlib.Data.List.DropRight
import SeamProtocol.Lib.Bytes

/-! # Paths

`std::path` on Unix. A path is any sequence of bytes; empty parts and single dots in it do not count,
except for a dot at its very beginning. -/

namespace Lib.Path

open List

def slash : UInt8 := 0x2f

def dot : UInt8 := 0x2e

def hasRoot (p : Bytes) : Bool := p.head? = some slash

def includeCurDir (p : Bytes) : Bool := p = [dot] || [dot, slash].isPrefixOf p

def lenBeforeBody (p : Bytes) : Nat := if hasRoot p || includeCurDir p then 1 else 0

def lead (p : Bytes) : Bytes := p.take (lenBeforeBody p)

def raw (p : Bytes) : List Bytes := (p.drop (lenBeforeBody p)).splitOn slash

def skipped (part : Bytes) : Bool := part = [] || part = [dot]

inductive Component where
  | rootDir
  | curDir
  | parentDir
  | normal (name : Bytes)
  deriving DecidableEq

def nextBack (p : Bytes) : Option (Component × Bytes) :=
  let parts := (raw p).rdropWhile skipped
  match parts.getLast? with
  | some part =>
    some (if part = [dot, dot] then .parentDir else .normal part,
      lead p ++ [slash].intercalate (parts.dropLast.rdropWhile skipped))
  | none =>
    if hasRoot p then some (.rootDir, [])
    else if includeCurDir p then some (.curDir, [])
    else none

def fileName (p : Bytes) : Option Bytes :=
  match nextBack p with
  | some (.normal name, _) => some name
  | _ => none

def parent (p : Bytes) : Option Bytes :=
  match nextBack p with
  | some (.rootDir, _) => none
  | some (_, rest) => some rest
  | none => none

/-- `PathBuf::push`, and `Path::join` -/
def join (p q : Bytes) : Bytes :=
  if hasRoot q then q
  else if p = [] ∨ p.getLast? = some slash then p ++ q
  else p ++ slash :: q

def setFileName (p name : Bytes) : Bytes :=
  join (if (fileName p).isSome then (parent p).getD p else p) name

/-- **All parts of a path that count**, two dots included. -/
def segments (p : Bytes) : List Bytes := (p.splitOn slash).filter fun part => !skipped part

/-! ## Parts -/

@[simp] theorem segments_nil : segments [] = [] := rfl

theorem segments_append_slash (p q : Bytes) : segments (p ++ slash :: q) = segments p ++ segments q := by
  have hsplit : (p ++ slash :: q).splitOn slash = p.splitOn slash ++ q.splitOn slash :=
    splitOnP_append_cons p q (beq_self_eq_true slash)
  simp [segments, hsplit]

theorem segments_slash_cons (p : Bytes) : segments (slash :: p) = segments p := segments_append_slash [] p

variable {p : Bytes}

theorem slash_notMem_of_mem_splitOn {part : Bytes} (h : part ∈ p.splitOn slash) : slash ∉ part := by
  induction p generalizing part with
  | nil =>
    rw [mem_singleton.mp h]
    exact not_mem_nil
  | cons c p ih =>
    have hsplit : (c :: p).splitOn slash
        = if (c == slash) = true then [] :: p.splitOn slash
          else (p.splitOn slash).modifyHead (c :: ·) := splitOnP_cons_eq_if_modifyHead ..
    rw [hsplit] at h
    split_ifs at h with hc
    · rcases mem_cons.mp h with rfl | h
      · exact not_mem_nil
      · exact ih h
    · cases hp : p.splitOn slash with
      | nil =>
        rw [hp] at h
        exact (not_mem_nil h).elim
      | cons first rest =>
        rw [hp, modifyHead_cons] at h
        rw [hp] at ih
        rcases mem_cons.mp h with rfl | h
        · rintro (_ | ⟨_, hmem⟩)
          · exact hc (beq_self_eq_true slash)
          · exact ih mem_cons_self hmem
        · exact ih (mem_cons_of_mem first h)

variable {q : Bytes}

theorem segments_join (p : Bytes) (hq : hasRoot q = false) :
    segments (join p q) = segments p ++ segments q := by
  rw [join, hq, if_neg Bool.false_ne_true]
  split_ifs with hp
  · rcases hp with rfl | hlast
    · rfl
    · obtain ⟨p', rfl⟩ := getLast?_eq_some_iff.mp hlast
      simp [segments_append_slash, segments_nil]
  · exact segments_append_slash p q

variable {name : Bytes}

theorem segments_of_notMem (hslash : slash ∉ name) (hname : skipped name = false) :
    segments name = [name] := by
  have hsplit : name.splitOn slash = [name] := splitOnP_eq_singleton fun c hc =>
    beq_eq_false_iff_ne.mpr fun heq => hslash (heq ▸ hc)
  simp [segments, hsplit, hname]

theorem hasRoot_join (p : Bytes) (hq : hasRoot q = false) : hasRoot (join p q) = hasRoot p := by
  rw [join, hq, if_neg Bool.false_ne_true]
  cases p with
  | nil => exact hq
  | cons c p => split_ifs <;> rfl

/-! ## From the end -/

theorem filter_rdropWhile (parts : List Bytes) :
    (parts.rdropWhile skipped).filter (fun part => !skipped part)
      = parts.filter fun part => !skipped part := by
  induction parts using List.reverseRecOn with
  | nil => rfl
  | append_singleton parts part ih =>
    rw [rdropWhile_concat]
    split_ifs with hpart
    · rw [ih, filter_append, filter_cons, hpart]
      simp
    · rfl

theorem lead_cases (p : Bytes) :
    (lead p = [] ∧ hasRoot p = false) ∨ (lead p = [slash] ∧ hasRoot p = true) ∨
      (lead p = [dot] ∧ hasRoot p = false ∧
        (p.drop (lenBeforeBody p)).head? ∈ [none, some slash]) := by
  unfold lead lenBeforeBody
  cases hroot : hasRoot p with
  | true =>
    obtain ⟨rest, rfl⟩ := head?_eq_some_iff.mp (of_decide_eq_true hroot)
    exact .inr (.inl ⟨rfl, rfl⟩)
  | false =>
    cases hdot : includeCurDir p with
    | false => exact .inl ⟨rfl, rfl⟩
    | true =>
      rw [includeCurDir, Bool.or_eq_true, decide_eq_true_eq] at hdot
      rcases hdot with rfl | hdot
      · exact .inr (.inr ⟨rfl, rfl, mem_cons_self⟩)
      · obtain ⟨rest, rfl⟩ := isPrefixOf_iff_prefix.mp hdot
        exact .inr (.inr ⟨rfl, rfl, mem_cons_of_mem _ mem_cons_self⟩)

variable {body : Bytes}

theorem segments_lead_append (h : body <+: p.drop (lenBeforeBody p)) :
    segments (lead p ++ body) = segments body := by
  rcases lead_cases p with ⟨hlead, -⟩ | ⟨hlead, -⟩ | ⟨hlead, -, hhead⟩
  · rw [hlead, nil_append]
  · rw [hlead]
    exact segments_slash_cons body
  · rw [hlead]
    cases body with
    | nil => rfl
    | cons c body =>
      obtain ⟨rest, hrest⟩ := h
      rw [← hrest] at hhead
      obtain rfl : c = slash := by simpa using hhead
      exact (segments_append_slash [dot] body).trans (segments_slash_cons body).symm

theorem hasRoot_lead_append (h : body <+: p.drop (lenBeforeBody p)) :
    hasRoot (lead p ++ body) = hasRoot p := by
  rcases lead_cases p with ⟨hlead, hroot⟩ | ⟨hlead, hroot⟩ | ⟨hlead, hroot, -⟩
  · rw [hlead, nil_append, hroot]
    cases body with
    | nil => rfl
    | cons c body =>
      obtain ⟨rest, hrest⟩ := h
      have hp : p = c :: body ++ rest := by
        have hwhole : lead p ++ p.drop (lenBeforeBody p) = p := take_append_drop ..
        rw [hlead, nil_append] at hwhole
        exact hwhole.symm.trans hrest.symm
      rw [hp] at hroot
      exact hroot
  · rw [hlead, hroot]
    rfl
  · rw [hlead, hroot]
    rfl

variable {parts : List Bytes}

theorem intercalate_prefix {parts' : List Bytes} (h : parts' <+: parts) :
    [slash].intercalate parts' <+: [slash].intercalate parts := by
  obtain ⟨rest, rfl⟩ := h
  induction parts' with
  | nil => exact nil_prefix
  | cons part parts' ih =>
    cases parts' with
    | nil =>
      cases rest with
      | nil => exact prefix_rfl
      | cons next rest =>
        simp
    | cons next parts' =>
      simpa [intercalate_cons_cons, prefix_append_right_inj] using ih

theorem intercalate_raw (p : Bytes) : [slash].intercalate (raw p) = p.drop (lenBeforeBody p) :=
  intercalate_splitOn slash

theorem segments_eq_filter_raw (p : Bytes) : segments p = (raw p).filter fun part => !skipped part := by
  have h := segments_lead_append (p := p) prefix_rfl
  rw [lead, take_append_drop] at h
  exact h

theorem segments_intercalate (h : parts <+: raw p) :
    segments ([slash].intercalate parts) = parts.filter fun part => !skipped part := by
  cases parts with
  | nil => rfl
  | cons part parts =>
    rw [segments, splitOn_intercalate slash (fun l hl => ?_) (cons_ne_nil _ _)]
    exact slash_notMem_of_mem_splitOn (h.subset hl)

theorem nextBack_of_segments (h : segments p = parts ++ [name]) :
    ∃ rest, nextBack p = some (if name = [dot, dot] then .parentDir else .normal name, rest) ∧
      segments rest = parts ∧ hasRoot rest = hasRoot p := by
  rw [segments_eq_filter_raw, ← filter_rdropWhile] at h
  have hne : (raw p).rdropWhile skipped ≠ [] := by
    intro hnil
    rw [hnil] at h
    exact absurd h.symm (append_ne_nil_of_right_ne_nil _ (cons_ne_nil _ _))
  -- the last part of the body counts
  have hlast := rdropWhile_last_not skipped (raw p) hne
  rw [Bool.not_eq_true] at hlast
  rw [← dropLast_append_getLast hne, filter_append, filter_cons, hlast] at h
  obtain ⟨hparts, hname⟩ := append_inj' h rfl
  have hpre : ((raw p).rdropWhile skipped).dropLast.rdropWhile skipped <+: raw p :=
    ( rdropWhile_prefix ..).trans (( dropLast_prefix _).trans ( rdropWhile_prefix ..))
  have hbody := intercalate_raw p ▸ intercalate_prefix hpre
  refine ⟨_, ?_, ?_, hasRoot_lead_append hbody⟩
  · rw [nextBack, getLast?_eq_getLast_of_ne_nil hne, (List.cons.inj hname).1]
  · rw [segments_lead_append hbody, segments_intercalate hpre, filter_rdropWhile, hparts]

theorem fileName_of_segments (h : segments p = parts ++ [name]) (hname : name ≠ [dot, dot]) :
    fileName p = some name := by
  obtain ⟨rest, hback, -⟩ := nextBack_of_segments h
  rw [fileName, hback, if_neg hname]

theorem segments_setFileName {name' : Bytes} (h : segments p = parts ++ [name])
    (hname : name ≠ [dot, dot]) (hroot : hasRoot name' = false) :
    segments (setFileName p name') = parts ++ segments name' ∧
      hasRoot (setFileName p name') = hasRoot p := by
  obtain ⟨rest, hback, hparts, hrest⟩ := nextBack_of_segments h
  have hset : setFileName p name' = join rest name' := by
    simp [setFileName, fileName_of_segments h hname, parent, hback, hname]
  rw [hset, segments_join rest hroot, hasRoot_join rest hroot, hparts, hrest]
  exact ⟨rfl, rfl⟩

end Lib.Path
