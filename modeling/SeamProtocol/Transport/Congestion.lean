import Mathlib.Data.List.DropRight
import Mathlib.Order.Bounds.Basic
import Mathlib.Tactic

/-! # The windowed maximum

The bandwidth filter of BBR keeps a deque of samples. An update drops stale samples from the front and
samples not larger than the new one from the back, so that the front is the largest sample of the last
rounds. -/

namespace SeamProtocol

open List

structure WindowedMaxFilter (α : Type) where
  window : List (Nat × α)
  windowSize : Nat

namespace WindowedMaxFilter

variable {α : Type} [LinearOrder α]

def new (windowSize : Nat) : WindowedMaxFilter α := ⟨[], windowSize⟩

def live (f : WindowedMaxFilter α) (round : Nat) : List (Nat × α) :=
  f.window.dropWhile fun s => f.windowSize ≤ round - s.1

def kept (f : WindowedMaxFilter α) (round : Nat) (value : α) : List (Nat × α) :=
  (f.live round).rdropWhile fun s => s.2 ≤ value

def update (f : WindowedMaxFilter α) (round : Nat) (value : α) : WindowedMaxFilter α :=
  { f with window := f.kept round value ++ [(round, value)] }

def max [Zero α] (f : WindowedMaxFilter α) : α := (f.window.head?.map Prod.snd).getD 0

/-! ## The deque -/

section Deque

variable {p : β → Bool} {l : List β} {a : β}

theorem mem_dropWhile_of_not (ha : a ∈ l) (hp : ¬ p a) : a ∈ l.dropWhile p := by
  rw [← l.takeWhile_append_dropWhile (p := p), mem_append] at ha
  exact ha.resolve_left fun h => hp (mem_takeWhile_imp h)

theorem mem_rdropWhile_of_not (ha : a ∈ l) (hp : ¬ p a) : a ∈ l.rdropWhile p :=
  mem_reverse.mpr (mem_dropWhile_of_not (mem_reverse.mpr ha) hp)

end Deque

variable {f : WindowedMaxFilter α} {samples : List (Nat × α)} {round : Nat} {value : α}

theorem kept_initial : f.kept round value <+: f.live round := rdropWhile_prefix _ _

variable {s : Nat × α}

theorem kept_subset (hs : s ∈ f.kept round value) : s ∈ f.window :=
  (dropWhile_sublist _).subset (kept_initial.subset hs)

theorem lt_of_mem_head (hw : 0 < f.windowSize) (hs : s ∈ (f.update round value).window.head?) :
    round < s.1 + f.windowSize := by
  rw [update] at hs
  cases hkept : f.kept round value with
  | nil =>
    simp only [hkept, nil_append, head?_cons, Option.mem_some_iff] at hs
    rw [← hs]
    omega
  | cons a l =>
    simp only [hkept, cons_append, head?_cons, Option.mem_some_iff] at hs
    -- the front of what is kept is the front of what the first loop leaves
    obtain ⟨rest, hlive⟩ : a :: l <+: f.live round := hkept ▸ kept_initial
    have hne : f.live round ≠ [] := by simp [← hlive]
    have hfront := head_dropWhile_not _ hne
    simp only [live] at hlive
    simp only [← hlive, cons_append, head_cons, decide_eq_false_iff_not, hs] at hfront
    omega

instance : Std.Refl fun a b : Nat × α => a.2 ≥ b.2 := ⟨fun _ => le_rfl⟩

structure Covers (f : WindowedMaxFilter α) (samples : List (Nat × α)) : Prop where
  decreasing : f.window.Pairwise fun a b => a.2 ≥ b.2
  mem : ∀ s ∈ f.window, s ∈ samples
  dominated : ∀ s ∈ samples, (∃ t ∈ samples, s.1 + f.windowSize ≤ t.1) ∨
    ∃ d ∈ f.window, s.1 ≤ d.1 ∧ s.2 ≤ d.2

theorem Covers.update (h : f.Covers samples) (hw : 0 < f.windowSize)
    (hrounds : ∀ s ∈ samples, s.1 ≤ round) :
    (f.update round value).Covers (samples ++ [(round, value)]) := by
  have hkept : (f.kept round value).Pairwise fun a b => a.2 ≥ b.2 :=
    (h.decreasing.sublist (dropWhile_sublist _)).sublist kept_initial.sublist
  refine ⟨pairwise_append.mpr ⟨hkept, pairwise_singleton .., fun a ha b hb => ?_⟩, ?_, ?_⟩
  · rw [mem_singleton.mp hb]
    -- the last sample that is kept is larger than the new one, and the others not smaller than it
    have hlast := rdropWhile_last_not _ _ (ne_nil_of_mem ha)
    exact (lt_of_not_ge fun hle => hlast (decide_eq_true hle)).le.trans (hkept.rel_getLast ha)
  · intro s hs
    rcases mem_append.mp hs with hs | hs
    · exact mem_append_left _ (h.mem s (kept_subset hs))
    · exact mem_append_right _ hs
  · intro s hs
    have hnew : (round, value) ∈ samples ++ [(round, value)] := mem_append_right _ mem_cons_self
    have hback : (round, value) ∈ (f.update round value).window := mem_append_right _ mem_cons_self
    rcases mem_append.mp hs with hs | hs
    · rcases h.dominated s hs with ⟨t, ht, hstale⟩ | ⟨d, hd, hround, hvalue⟩
      · exact .inl ⟨t, mem_append_left _ ht, hstale⟩
      by_cases hold : s.1 + f.windowSize ≤ round
      · exact .inl ⟨_, hnew, hold⟩
      have hlive : d ∈ f.live round := mem_dropWhile_of_not hd (by simp; omega)
      by_cases hle : d.2 ≤ value
      · exact .inr ⟨_, hback, hrounds s hs, hvalue.trans hle⟩
      · have hstays : d ∈ f.kept round value := mem_rdropWhile_of_not hlive (by simpa using hle)
        exact .inr ⟨d, mem_append_left _ hstays, hround, hvalue⟩
    · rw [mem_singleton.mp hs]
      exact .inr ⟨_, hback, le_rfl, le_rfl⟩

theorem Covers.isGreatest [Zero α] (h : f.Covers samples) (hw : 0 < f.windowSize)
    (hrounds : ∀ s ∈ samples, s.1 ≤ round) (value : α) :
    IsGreatest {v | ∃ r, (r, v) ∈ samples ++ [(round, value)] ∧ round < r + f.windowSize}
      (f.update round value).max := by
  have hnew : (f.update round value).Covers (samples ++ [(round, value)]) := h.update hw hrounds
  have hne : (f.update round value).window ≠ [] := concat_ne_nil _ _
  have hhead := head?_eq_some_head hne
  have hmax : (f.update round value).max = ((f.update round value).window.head hne).2 := by
    simp [WindowedMaxFilter.max, hhead]
  rw [hmax]
  constructor
  · exact ⟨_, hnew.mem _ (head_mem hne), lt_of_mem_head hw hhead⟩
  · rintro v ⟨r, hmem, hr⟩
    rcases hnew.dominated _ hmem with ⟨t, ht, hstale⟩ | ⟨d, hd, -, hle⟩
    · -- no round is later than the current one
      have hlast : t.1 ≤ round := by
        rcases mem_append.mp ht with ht | ht
        · exact hrounds t ht
        · rw [mem_singleton.mp ht]
      exact absurd (hstale.trans hlast) (Nat.not_le.mpr hr)
    · exact hle.trans (hnew.decreasing.rel_head hd)

def run (windowSize : Nat) (samples : List (Nat × α)) : WindowedMaxFilter α :=
  samples.foldl (fun f s => f.update s.1 s.2) (new windowSize)

theorem covers_run {windowSize : Nat} (hw : 0 < windowSize)
    (hsorted : samples.Pairwise fun a b => a.1 ≤ b.1) :
    (run windowSize samples).windowSize = windowSize ∧ (run windowSize samples).Covers samples := by
  induction samples using reverseRecOn with
  | nil => exact ⟨rfl, Pairwise.nil, nofun, nofun⟩
  | append_singleton samples s ih =>
    obtain ⟨hsamples, -, hrounds⟩ := pairwise_append.mp hsorted
    obtain ⟨hsize, hcovers⟩ := ih hsamples
    rw [run, foldl_concat]
    exact ⟨hsize, hcovers.update (hw.trans_eq hsize.symm) fun t ht => hrounds t ht s mem_cons_self⟩

end WindowedMaxFilter

open WindowedMaxFilter

/-- **The filter reports the windowed maximum**: after every update, `max` is the largest value of all
updates so far whose round is greater than the current round minus the window size. -/
theorem max_eq_windowed {α : Type} [LinearOrder α] [Zero α] {windowSize : Nat} (hw : 0 < windowSize)
    (samples : List (Nat × α)) (round : Nat) (value : α)
    (hsorted : (samples ++ [(round, value)]).Pairwise fun a b => a.1 ≤ b.1) :
    IsGreatest {v | ∃ r, (r, v) ∈ samples ++ [(round, value)] ∧ round < r + windowSize}
      (run windowSize (samples ++ [(round, value)])).max := by
  obtain ⟨hsamples, -, hrounds⟩ := pairwise_append.mp hsorted
  obtain ⟨hsize, hcovers⟩ := covers_run hw hsamples
  rw [run, foldl_concat]
  have hgreatest := hcovers.isGreatest (hw.trans_eq hsize.symm)
    (fun t ht => hrounds t ht _ mem_cons_self) value
  rwa [hsize] at hgreatest

/-- In round 7 the largest value of the last three rounds is the one of round 5. -/
theorem max_eq_windowed_three :
    [(4, 9), (5, 6), (6, 2), (7, 4)].Pairwise (fun a b : Nat × Nat => a.1 ≤ b.1) ∧
      (run 3 [(4, 9), (5, 6), (6, 2), (7, 4)]).max = 6 ∧
      IsGreatest {v | ∃ r, (r, v) ∈ [(4, 9), (5, 6), (6, 2), (7, 4)] ∧ 7 < r + 3}
        (run 3 [(4, 9), (5, 6), (6, 2), (7, 4)]).max :=
  ⟨by decide, by decide, max_eq_windowed (by decide) [(4, 9), (5, 6), (6, 2)] 7 4 (by decide)⟩

end SeamProtocol
