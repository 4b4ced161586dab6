import Mathlib

set_option autoImplicit false

/-!
# Pages over a changing ordered set

A listing that asks for one page after another, each from where the last one
ended, while the set it lists changes between the pages. Where every page
answers what comes after its cursor, the listing is in order, misses nothing
that stays, and ends.
-/
namespace BoardGamesEmpire.CursorPaging

section Pages

variable {α : Type}

/-- A page as it was answered: what was there then, the cursor, the keys, and
    the cursor of the next page. -/
structure Page (α : Type) where
  stored : Set α
  cursor : Option α
  keys : List α
  next : Option α

def cursorAfter (pages : List (Page α)) : Option α := pages.getLast?.bind Page.next

def Unfinished (pages : List (Page α)) : Prop := pages = [] ∨ (cursorAfter pages).isSome = true

def listed (pages : List (Page α)) : List α := pages.flatMap Page.keys

inductive Chained : List (Page α) → Prop where
  | start : Chained []
  | page {pages : List (Page α)} {page : Page α} (h : Chained pages) (hunfinished : Unfinished pages)
    (hcursor : page.cursor = cursorAfter pages) (hnext : page.next = none ∨
     page.next = page.keys.getLast?) : Chained (pages ++ [page])

@[simp] theorem cursorAfter_nil : cursorAfter ([] : List (Page α)) = none := rfl

@[simp] theorem cursorAfter_concat (pages : List (Page α)) (page : Page α) :
  cursorAfter (pages ++ [page]) = page.next := by
 rw [cursorAfter, List.getLast?_concat]
 rfl

@[simp] theorem listed_concat (pages : List (Page α)) (page : Page α) :
  listed (pages ++ [page]) = listed pages ++ page.keys := by
 rw [listed, List.flatMap_append, List.flatMap_singleton]
 rfl

theorem unfinished_concat (pages : List (Page α)) (page : Page α) :
  Unfinished (pages ++ [page]) ↔ page.next.isSome = true := by
 rw [Unfinished, cursorAfter_concat]
 simp

theorem next_mem {page : Page α} (hnext : page.next = none ∨ page.next = page.keys.getLast?)
  {key : α} (h : page.next = some key) :
  key ∈ page.keys := by
 rcases hnext with hnone | hlast
 · rw [hnone] at h
   cases h
 · rw [hlast] at h
   exact List.mem_of_getLast? h

theorem cursorAfter_mem {pages : List (Page α)} (h : Chained pages) {key : α}
  (hkey : cursorAfter pages = some key) : key ∈ listed pages := by
 cases h with
 | start => cases hkey
 | page _ _ _ hnext =>
  rw [cursorAfter_concat] at hkey
  rw [listed_concat]
  exact List.mem_append_right _ (next_mem hnext hkey)

end Pages

section Order

variable {α : Type} {lt : α → α → Prop}

def After (lt : α → α → Prop) (cursor : Option α) (key : α) : Prop := ∀ c, cursor = some c → lt c key

structure Page.Resumes (lt : α → α → Prop) (page : Page α) : Prop where
  ordered : page.keys.Pairwise lt
  after : ∀ key ∈ page.keys, After lt page.cursor key
  complete : ∀ key ∈ page.stored, After lt page.cursor key → key ∈ page.keys ∨
   (page.next ≠ none ∧ ∀ listed ∈ page.keys, lt listed key)

/-- How far a listing has come: everything listed is in order and behind the
    cursor, and what was there at every page is listed or lies ahead of it. -/
structure Progress (lt : α → α → Prop) (pages : List (Page α)) : Prop where
  ordered : (listed pages).Pairwise lt
  behind : ∀ c, cursorAfter pages = some c → ∀ key ∈ listed pages, key = c ∨ lt key c
  ahead : ∀ key, (∀ page ∈ pages, key ∈ page.stored) → key ∈ listed pages ∨
   (Unfinished pages ∧ After lt (cursorAfter pages) key)

theorem last_behind {keys : List α} (hordered : keys.Pairwise lt) {c : α}
  (hlast : keys.getLast? = some c) {key : α} (hkey : key ∈ keys) :
  key = c ∨ lt key c := by
 obtain ⟨before, rfl⟩ := List.getLast?_eq_some_iff.1 hlast
 rcases List.mem_append.1 hkey with hbefore | hself
 · exact .inr ((List.pairwise_append.1 hordered).2.2 key hbefore c (List.mem_singleton_self c))
 · exact .inl (List.mem_singleton.1 hself)

variable [IsTrans α lt]

theorem progress_step {pages : List (Page α)} {page : Page α} (h : Progress lt pages)
  (hunfinished : Unfinished pages)
  (hcursor : page.cursor = cursorAfter pages) (hnext : page.next = none ∨
   page.next = page.keys.getLast?) (hresumes : page.Resumes lt) :
  Progress lt (pages ++ [page]) := by
 have hlater : ∀ key ∈ listed pages, ∀ key' ∈ page.keys, lt key key' := by
  intro key hkey key' hkey'
  rcases hunfinished with rfl | hsome
  · cases hkey
  · obtain ⟨c, hc⟩ := Option.isSome_iff_exists.1 hsome
    have hafter := hresumes.after key' hkey' c (hcursor.trans hc)
    rcases h.behind c hc key hkey with rfl | hbehind
    · exact hafter
    · exact trans_of lt hbehind hafter
 constructor
 · rw [listed_concat, List.pairwise_append]
   exact ⟨h.ordered, hresumes.ordered, hlater⟩
 · intro c hc key hkey
   rw [cursorAfter_concat] at hc
   rw [listed_concat, List.mem_append] at hkey
   have hmem := next_mem hnext hc
   rcases hkey with hearlier | hhere
   · exact .inr (hlater key hearlier c hmem)
   · rcases hnext with hnone | hlast
     · rw [hnone] at hc
       cases hc
     · exact last_behind hresumes.ordered (hlast.symm.trans hc) hhere
 · intro key hstored
   rw [listed_concat, List.mem_append, unfinished_concat, cursorAfter_concat]
   rcases h.ahead key fun earlier hearlier => hstored earlier (List.mem_append_left _ hearlier) with
    hkey | ⟨-, hahead⟩
   · exact .inl (.inl hkey)
   · rw [← hcursor] at hahead
     rcases hresumes.complete key
      (hstored page (List.mem_append_right _ (List.mem_singleton_self _))) hahead with hkey
       | ⟨hmore, hbeyond⟩
     · exact .inl (.inr hkey)
     · exact .inr ⟨Option.isSome_iff_ne_none.2 hmore, fun c hc => hbeyond c (next_mem hnext hc)⟩

theorem progress_chained {pages : List (Page α)} (h : Chained pages)
  (hresumes : ∀ page ∈ pages, page.Resumes lt) : Progress lt pages := by
 induction h with
 | start =>
  constructor
  · exact List.Pairwise.nil
  · intro _ hc
    cases hc
  · exact fun key _ => .inr ⟨.inl rfl, fun _ hc => by cases hc⟩
 | page _ hunfinished hcursor hnext ih =>
  exact progress_step (ih fun earlier hearlier =>
   hresumes earlier (List.mem_append_left _ hearlier)) hunfinished hcursor hnext
   (hresumes _ (List.mem_append_right _ (List.mem_singleton_self _)))

theorem chained_length {pages : List (Page α)} (h : Chained pages) :
  pages.length ≤ (listed pages).length + 1 ∧
   (Unfinished pages → pages.length ≤ (listed pages).length) := by
 induction h with
 | start => exact ⟨Nat.zero_le _, fun _ => Nat.zero_le _⟩
 | @page pages page _ hunfinished _ hnext ih =>
  have hbound := ih.2 hunfinished
  rw [listed_concat, unfinished_concat]
  simp only [List.length_append, List.length_singleton]
  refine ⟨by omega, fun hmore => ?_⟩
  obtain ⟨c, hc⟩ := Option.isSome_iff_exists.1 hmore
  have hpos := List.length_pos_of_mem (next_mem hnext hc)
  omega

end Order

section Cut

variable {α : Type} {lt : α → α → Prop}

theorem mem_drop_idxOf [BEq α] [LawfulBEq α] [Std.Irrefl lt] [IsTrans α lt] {keys : List α}
  (hordered : keys.Pairwise lt) {c : α} (hc : c ∈ keys)
  (key : α) : key ∈ keys.drop (keys.idxOf c + 1) ↔ key ∈ keys ∧ lt c key := by
 obtain ⟨before, rest, rfl, hbefore⟩ := List.eq_append_cons_of_mem hc
 have hdrop : (before ++ c :: rest).drop ((before ++ c :: rest).idxOf c + 1) = rest := by
  rw [List.idxOf_append_of_notMem hbefore, List.idxOf_cons_self, Nat.add_zero, ← List.drop_drop,
   List.drop_left]
  rfl
 obtain ⟨-, htail, hbetween⟩ := List.pairwise_append.1 hordered
 rw [hdrop]
 constructor
 · exact fun hkey =>
    ⟨List.mem_append_right _ (List.mem_cons_of_mem _ hkey), (List.pairwise_cons.1 htail).1 key hkey⟩
 · rintro ⟨hkey, hlt⟩
   rcases List.mem_append.1 hkey with hearlier | hlater
   · exact absurd (trans_of lt hlt (hbetween key hearlier c List.mem_cons_self)) (irrefl_of lt c)
   · rcases List.mem_cons.1 hlater with rfl | hrest
     · exact absurd hlt (irrefl_of lt key)
     · exact hrest

theorem resumes_cut {stored : Set α} {cursor next : Option α} {rest : List α} {limit : ℕ}
  (hlimit : 0 < limit) (hordered : rest.Pairwise lt)
  (hrest : ∀ key, key ∈ rest ↔ key ∈ stored ∧ After lt cursor key)
  (hnext : next = if limit < rest.length then (rest.take limit).getLast? else none) :
  Page.Resumes lt ⟨stored, cursor, rest.take limit, next⟩ := by
 have hsplit := hordered
 rw [← List.take_append_drop limit rest, List.pairwise_append] at hsplit
 constructor
 · exact hsplit.1
 · exact fun key hkey => ((hrest key).1 (List.mem_of_mem_take hkey)).2
 · intro key hstored hafter
   have hkey := (hrest key).2 ⟨hstored, hafter⟩
   rw [← List.take_append_drop limit rest, List.mem_append] at hkey
   refine hkey.imp_right fun hbeyond => ⟨?_, fun listed hlisted => hsplit.2.2 listed hlisted key hbeyond⟩
   have hmore : limit < rest.length := by
    have hpos := List.length_pos_of_mem hbeyond
    rw [List.length_drop] at hpos
    omega
   rw [hnext, if_pos hmore, Ne, List.getLast?_eq_none_iff, List.take_eq_nil_iff]
   rintro (hzero | hnil)
   · omega
   · rw [hnil] at hmore
     exact absurd hmore (Nat.not_lt_zero _)

end Cut

end BoardGamesEmpire.CursorPaging
