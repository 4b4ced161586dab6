import BoardGamesEmpire.BbcodeTrace

set_option autoImplicit false

/-!
# What a run of the reader records

Every step of the loop keeps two facts of the record: written out again it is
the source read so far, and each of its tags stands where the reader could
match it.
-/
namespace BoardGamesEmpire.Bbcode
open JsText

section TagTexts

/-- Written as `TAG` matches it, with these groups. -/
def IsTag (written : Text) (closing : Bool) (name : Text) : Prop :=
  ∃ source tag rest, matchTag source = some (tag, rest) ∧ tag.written = written ∧
   tag.closing = closing ∧ tag.name = name

theorem tagName_start (s : Text) : tagName s <+: s := by
 cases s with
 | nil => exact List.prefix_rfl
 | cons c s =>
  rw [tagName]
  split
  · next h => exact ⟨s, by rw [h]; rfl⟩
  · split
    · exact List.cons_prefix_cons.mpr ⟨rfl, List.takeWhile_prefix _⟩
    · exact List.nil_prefix

theorem tagAttribute_split (inside : Bool) (s attr rest : Text)
  (h : tagAttribute inside s = some (attr, rest)) :
  s = attr ++ ']' :: rest := by
 induction s generalizing inside attr with
 | nil => cases h
 | cons c s ih =>
  have hstep : ∀ inside', (tagAttribute inside' s).map (fun cut => (c :: cut.1, cut.2)) = some
   (attr, rest) →
    c :: s = attr ++ ']' :: rest := by
   intro inside' hmap
   obtain ⟨⟨attr', rest'⟩, hcut, heq⟩ := Option.map_eq_some_iff.mp hmap
   obtain ⟨rfl, rfl⟩ := Prod.mk.injEq .. ▸ heq
   rw [ih inside' attr' hcut]
   rfl
  unfold tagAttribute at h
  split at h
  · cases h
  · split at h
    · next hc =>
      split at h
      · exact hstep _ h
      · cases h
        rw [hc]
        rfl
    · split at h
      · split at h
        · cases h
        · exact hstep _ h
      · exact hstep _ h

theorem matchName_cases (slash s : Text) (tag : Tag) (rest : Text)
  (h : matchName slash s = some (tag, rest)) :
  tagName s ≠ [] ∧ tag.closing = decide (slash ≠ []) ∧
   ∃ shown, tag.written = '[' :: slash ++ tagName s ++ shown ++ [']'] ∧
   s = tagName s ++ shown ++ ']' :: rest := by
 have hname : tagName s ++ s.drop (tagName s).length = s := List.prefix_iff_eq_append.mp (tagName_start s)
 unfold matchName at h
 dsimp only at h
 split at h
 · cases h
 · next hne =>
   refine ⟨hne, ?_⟩
   split at h
   · cases h
   · next c after hdrop =>
     rw [hdrop] at hname
     split at h
     · next hc =>
       cases h
       exact ⟨rfl, [], by simp, by rw [← hc]; simpa using hname.symm⟩
     · split at h
       · next hc =>
         obtain ⟨⟨attr, rest'⟩, hcut, heq⟩ := Option.map_eq_some_iff.mp h
         cases heq
         refine ⟨rfl, '=' :: attr, by simp, ?_⟩
         rw [tagAttribute_split false after attr rest' hcut, hc] at hname
         simpa using hname.symm
       · cases h

theorem matchTag_cases (s : Text) (tag : Tag) (rest : Text) (h : matchTag s = some (tag, rest)) :
  s = tag.written ++ rest ∧ 3 ≤ tag.written.length ∧ (tag.closing = true → 4 ≤ tag.written.length) := by
 have hlength : ∀ name : Text, name ≠ [] → 0 < name.length := fun name hne => List.length_pos_iff.mpr hne
 unfold matchTag at h
 split at h
 · next s =>
   obtain ⟨hne, -, shown, hwritten, hs⟩ := matchName_cases _ _ _ _ h
   have hpos := hlength _ hne
   refine ⟨?_, ?_, fun _ => ?_⟩
   · rw [hwritten]
     calc '[' :: '/' :: s = '[' :: '/' :: (tagName s ++ shown ++ ']' :: rest) := by rw [← hs]
      _ = _ := by simp
   · rw [hwritten]; simp; omega
   · rw [hwritten]; simp; omega
 · next s _ =>
   obtain ⟨hne, hclosing, shown, hwritten, hs⟩ := matchName_cases _ _ _ _ h
   have hpos := hlength _ hne
   refine ⟨?_, ?_, fun hc => ?_⟩
   · rw [hwritten]
     calc '[' :: s = '[' :: (tagName s ++ shown ++ ']' :: rest) := by rw [← hs]
      _ = _ := by simp
   · rw [hwritten]; simp; omega
   · rw [hclosing] at hc
     simp at hc
 · cases h

theorem isTag_length {written : Text} {closing : Bool} {name : Text}
  (h : IsTag written closing name) :
  3 ≤ written.length ∧ (closing = true → 4 ≤ written.length) := by
 obtain ⟨source, tag, rest, hmatch, rfl, rfl, rfl⟩ := h
 exact (matchTag_cases source tag rest hmatch).2

theorem nextTag_split (s before : Text) (tag : Tag) (rest : Text)
  (h : nextTag s = some (before, tag, rest)) :
  s = before ++ tag.written ++ rest ∧ IsTag tag.written tag.closing tag.name := by
 induction s generalizing before with
 | nil => cases h
 | cons c s ih =>
  unfold nextTag at h
  split at h
  · next tag' rest' hmatch =>
    cases h
    exact ⟨(matchTag_cases _ _ _ hmatch).1, _, _, _, hmatch, rfl, rfl, rfl⟩
  · obtain ⟨⟨before', found⟩, hnext, heq⟩ := Option.map_eq_some_iff.mp h
    cases heq
    obtain ⟨hs, htag⟩ := ih before' hnext
    refine ⟨?_, htag⟩
    calc c :: s = c :: (before' ++ tag.written ++ rest) := by rw [← hs]
     _ = _ := rfl

theorem codeClose_split (s content closing rest : Text)
  (h : codeClose s = some (content, closing, rest)) :
  s = content ++ closing ++ rest ∧ lowerCase closing = closeCode := by
 induction s generalizing content with
 | nil => cases h
 | cons c s ih =>
  unfold codeClose at h
  split at h
  · next hcode =>
    cases h
    exact ⟨(List.take_append_drop _ _).symm, hcode⟩
  · obtain ⟨⟨content', found⟩, hclose, heq⟩ := Option.map_eq_some_iff.mp h
    cases heq
    obtain ⟨hs, hcode⟩ := ih content' hclose
    refine ⟨?_, hcode⟩
    calc c :: s = c :: (content' ++ closing ++ rest) := by rw [← hs]
     _ = _ := rfl

end TagTexts

section Written

mutual

def Piece.written : Piece → Text
  | .text value => value
  | .item tag => tag
  | .closeItem tag => tag
  | .code _ _ opening content closing => opening ++ content ++ closing
  | .pair _ _ opening inner closing => opening ++ writtenAll inner ++ closing
  | .unclosed _ opening inner => opening ++ writtenAll inner
termination_by structural piece => piece

def writtenAll : List Piece → Text
  | [] => []
  | piece :: pieces => piece.written ++ writtenAll pieces
termination_by structural pieces => pieces

end

theorem writtenAll_concat (pieces : List Piece) (piece : Piece) :
  writtenAll (pieces ++ [piece]) = writtenAll pieces ++ piece.written := by
 induction pieces with
 | nil => simp [writtenAll]
 | cons first pieces ih => simp [writtenAll, ih]

def openWritten : List (OpenElement (List Piece)) → Text
  | [] => []
  | element :: below => openWritten below ++ element.openingTag ++ writtenAll element.children

def Stack.written (stack : Stack (List Piece)) : Text :=
    writtenAll stack.root.children ++ openWritten stack.opened

theorem written_gather (stack : Stack (List Piece)) (piece : Piece) :
  (stack.gather (· ++ [piece])).written = stack.written ++ piece.written := by
 obtain ⟨root, opened⟩ := stack
 cases opened with
 | nil => simp [Stack.gather, Stack.mapTop, Stack.written, openWritten, writtenAll_concat]
 | cons element below => simp [Stack.gather, Stack.mapTop, Stack.written, openWritten, writtenAll_concat]

theorem written_setTooDeep (stack : Stack (List Piece)) (name : Text) (count : ℕ) :
  (stack.setTooDeep name count).written = stack.written := by
 obtain ⟨root, opened⟩ := stack
 cases opened <;> rfl

theorem written_leaveUnclosed (stack : Stack (List Piece)) :
  (leaveUnclosed pieceBuilder stack).written = stack.written := by
 obtain ⟨root, opened⟩ := stack
 cases opened with
 | nil => rfl
 | cons element below =>
  have hgather := written_gather ⟨root, below⟩ (.unclosed element.name element.openingTag element.children)
  refine hgather.trans ?_
  simp [Stack.written, openWritten, Piece.written]

theorem written_leaveAll (n : ℕ) (stack : Stack (List Piece)) :
  (leaveAll pieceBuilder n stack).written = stack.written := by
 induction n generalizing stack with
 | zero => rfl
 | succ n ih => rw [leaveAll, ih, written_leaveUnclosed]

theorem written_closeTop (closing : Text) (stack : Stack (List Piece)) (h : stack.opened ≠ []) :
  (closeTop pieceBuilder closing stack).written = stack.written ++ closing := by
 obtain ⟨root, opened⟩ := stack
 cases opened with
 | nil => exact absurd rfl h
 | cons element below =>
  have hgather := written_gather ⟨root, below⟩
   (.pair element.name element.attr element.openingTag element.children closing)
  refine hgather.trans ?_
  simp [Stack.written, openWritten, Piece.written]

end Written

section Depths

variable {β : Type} (b : Builder β)

theorem leaveAll_opened_names (n : ℕ) (stack : Stack β) :
  (leaveAll b n stack).opened.map OpenElement.name = (stack.opened.map OpenElement.name).drop n := by
 induction n generalizing stack with
 | zero => rfl
 | succ n ih =>
  rw [leaveAll, ih]
  obtain ⟨root, opened⟩ := stack
  cases opened with
  | nil => simp [leaveUnclosed]
  | cons element below => cases below <;> rfl

theorem openDepth_top (stack : Stack β) (name : Text) (above : ℕ)
  (h : openDepth stack name = some above) :
  ∃ element below, (leaveAll b above stack).opened = element :: below ∧ element.name = name := by
 obtain ⟨hlt, hname, -⟩ := List.findIdx?_eq_some_iff_getElem.mp h
 have hnames := leaveAll_opened_names b above stack
 have hdrop : (stack.opened.map OpenElement.name).drop above
  = name :: (stack.opened.map OpenElement.name).drop (above + 1) := by
  rw [List.drop_eq_getElem_cons (by simpa using hlt), List.getElem_map, of_decide_eq_true hname]
 rw [hdrop] at hnames
 cases hopened : (leaveAll b above stack).opened with
 | nil =>
  rw [hopened] at hnames
  cases hnames
 | cons element below =>
  rw [hopened] at hnames
  exact ⟨element, below, rfl, (List.cons.inj hnames).1⟩

end Depths

section Placed

mutual

/-- Where the reader records a piece: with this many elements open, in a list or not. -/
def Piece.Placed (level : ℕ) (inList : Prop) : Piece → Prop
  | .text _ => True
  | .item tag => inList ∧ IsTag tag false ['*']
  | .closeItem tag => inList ∧ IsTag tag true ['*']
  | .code full _ opening _ closing =>
    (full = true ↔ maxNesting ≤ level) ∧ IsTag opening false codeName ∧ lowerCase closing = closeCode
  | .pair name _ opening inner closing =>
    level < maxNesting ∧ IsTag opening false name ∧ IsTag closing true name ∧
     PlacedAll (level + 1) (name = listName) inner
  | .unclosed name opening inner => level < maxNesting ∧ IsTag opening false name ∧
   PlacedAll (level + 1) (name = listName) inner
termination_by structural piece => piece

def PlacedAll (level : ℕ) (inList : Prop) : List Piece → Prop
  | [] => True
  | piece :: pieces => piece.Placed level inList ∧ PlacedAll level inList pieces
termination_by structural pieces => pieces

end

theorem placedAll_concat (level : ℕ) (inList : Prop) (pieces : List Piece) (piece : Piece)
  (hpieces : PlacedAll level inList pieces)
  (hpiece : piece.Placed level inList) : PlacedAll level inList (pieces ++ [piece]) := by
 induction pieces with
 | nil => exact ⟨hpiece, trivial⟩
 | cons first pieces ih => exact ⟨hpieces.1, ih hpieces.2⟩

def OpenPlaced : List (OpenElement (List Piece)) → Prop
  | [] => True
  | element :: below =>
    (below.length < maxNesting ∧ IsTag element.openingTag false element.name ∧
      PlacedAll (below.length + 1) (element.name = listName) element.children) ∧ OpenPlaced below

structure Stack.Placed (stack : Stack (List Piece)) : Prop where
  root_name : stack.root.name = []
  root : PlacedAll 0 False stack.root.children
  opened : OpenPlaced stack.opened

theorem placed_gather (stack : Stack (List Piece)) (piece : Piece) (h : stack.Placed)
  (hpiece : piece.Placed stack.opened.length (stack.top.name = listName)) :
   (stack.gather (· ++ [piece])).Placed := by
 obtain ⟨root, opened⟩ := stack
 obtain ⟨hname, hroot, hopened⟩ := h
 cases opened with
 | nil =>
  have hnot : (root.name = listName) = False := by
   rw [show root.name = [] from hname]
   exact eq_false (by decide)
  have hpiece' : piece.Placed 0 (root.name = listName) := hpiece
  rw [hnot] at hpiece'
  exact ⟨hname, placedAll_concat _ _ _ _ hroot hpiece', trivial⟩
 | cons element below =>
  obtain ⟨⟨hlevel, htag, hchildren⟩, hbelow⟩ := hopened
  exact ⟨hname, hroot, ⟨hlevel, htag, placedAll_concat _ _ _ _ hchildren hpiece⟩, hbelow⟩

theorem placed_setTooDeep (stack : Stack (List Piece)) (name : Text) (count : ℕ) (h : stack.Placed) :
  (stack.setTooDeep name count).Placed := by
 obtain ⟨root, opened⟩ := stack
 cases opened with
 | nil => exact ⟨h.root_name, h.root, trivial⟩
 | cons element below => exact ⟨h.root_name, h.root, h.opened⟩

theorem placed_leaveUnclosed (stack : Stack (List Piece)) (h : stack.Placed) :
  (leaveUnclosed pieceBuilder stack).Placed := by
 obtain ⟨root, opened⟩ := stack
 cases opened with
 | nil => exact h
 | cons element below =>
  obtain ⟨hname, hroot, hplaced, hbelow⟩ := h
  exact placed_gather ⟨root, below⟩ _ ⟨hname, hroot, hbelow⟩ hplaced

theorem placed_leaveAll (n : ℕ) (stack : Stack (List Piece)) (h : stack.Placed) :
  (leaveAll pieceBuilder n stack).Placed := by
 induction n generalizing stack with
 | zero => exact h
 | succ n ih => exact ih _ (placed_leaveUnclosed stack h)

theorem placed_closeTop (closing : Text) (stack : Stack (List Piece)) (h : stack.Placed)
  (hclosing : ∀ element ∈ stack.opened.head?, IsTag closing true element.name) :
   (closeTop pieceBuilder closing stack).Placed := by
 obtain ⟨root, opened⟩ := stack
 cases opened with
 | nil => exact h
 | cons element below =>
  obtain ⟨hname, hroot, ⟨hlevel, htag, hchildren⟩, hbelow⟩ := h
  exact placed_gather ⟨root, below⟩ _ ⟨hname, hroot, hbelow⟩
   ⟨hlevel, htag, hclosing element rfl, hchildren⟩

end Placed

section Loop

theorem handleTag_keeps (tag : Tag) (stack : Stack (List Piece))
  (htag : IsTag tag.written tag.closing tag.name) (h : stack.Placed) :
  (handleTag pieceBuilder tag stack).written = stack.written ++ tag.written ∧
   (handleTag pieceBuilder tag stack).Placed := by
 have htext : ∀ s : Stack (List Piece), s.Placed →
  (s.gather (pieceBuilder.text · tag.written)).written = s.written ++ tag.written ∧
   (s.gather (pieceBuilder.text · tag.written)).Placed := fun s hs =>
  ⟨written_gather s (.text tag.written), placed_gather s (.text tag.written) hs trivial⟩
 unfold handleTag
 split
 · next hstar =>
   rw [hstar] at htag
   unfold handleItem
   split
   · exact htext stack h
   · next hlist =>
     have hlist := not_not.mp hlist
     split
     · next hclosing =>
       rw [hclosing] at htag
       exact ⟨written_gather stack (.item tag.written), placed_gather stack (.item tag.written) h
        ⟨hlist, htag⟩⟩
     · next hclosing =>
       have hclosing : tag.closing = true := by simpa using hclosing
       rw [hclosing] at htag
       exact ⟨written_gather stack (.closeItem tag.written),
        placed_gather stack (.closeItem tag.written) h ⟨hlist, htag⟩⟩
 · split
   · next hclosing =>
     rw [hclosing] at htag
     unfold handleOpening
     split
     · obtain ⟨hwritten, hplaced⟩ := htext stack h
       exact ⟨(written_setTooDeep _ _ _).trans hwritten, placed_setTooDeep _ _ _ hplaced⟩
     · next hfull =>
       have hlevel : stack.opened.length < maxNesting := by
        simpa [Stack.full] using hfull
       exact ⟨by simp [Stack.written, openWritten, writtenAll, pieceBuilder], h.root_name, h.root, ⟨hlevel, htag, trivial⟩, h.opened⟩
   · next hclosing =>
     have hclosing : tag.closing = true := by simpa using hclosing
     rw [hclosing] at htag
     unfold handleClosing
     split
     · obtain ⟨hwritten, hplaced⟩ :=
        htext _ (placed_setTooDeep stack tag.name (waiting stack tag.name - 1) h)
       rw [written_setTooDeep] at hwritten
       exact ⟨hwritten, hplaced⟩
     · split
       · exact htext stack h
       · next above hdepth =>
         obtain ⟨element, below, hopened, hname⟩ := openDepth_top pieceBuilder stack tag.name above hdepth
         refine ⟨?_, placed_closeTop _ _ (placed_leaveAll above stack h) ?_⟩
         · rw [written_closeTop _ _ (by rw [hopened]; exact List.cons_ne_nil _ _), written_leaveAll]
         · intro top htop
           rw [hopened] at htop
           cases htop
           rw [hname]
           exact htag

theorem readTags_keeps (length fuel : ℕ) (stack : Stack (List Piece)) (noCodeCloseFrom : ℕ)
  (rest : Text) (hfuel : rest.length ≤ fuel) (h : stack.Placed) :
  (readTags pieceBuilder length fuel stack noCodeCloseFrom rest).written = stack.written ++ rest ∧
   (readTags pieceBuilder length fuel stack noCodeCloseFrom rest).Placed := by
 have hlast : ∀ (s : Stack (List Piece)) (v : Text), s.Placed →
   (s.gather (pieceBuilder.text · v)).written = s.written ++ v ∧
    (s.gather (pieceBuilder.text · v)).Placed :=
  fun s v hs => ⟨written_gather s (.text v), placed_gather s (.text v) hs trivial⟩
 induction fuel generalizing stack noCodeCloseFrom rest with
 | zero => exact hlast stack rest h
 | succ fuel ih =>
  rw [readTags]
  split
  · exact hlast stack rest h
  · next before tag after hnext =>
    obtain ⟨hsplit, htag⟩ := nextTag_split rest before tag after hnext
    have hlength := (isTag_length htag).1
    have hafter : after.length ≤ fuel := by
     rw [hsplit] at hfuel
     simp only [List.length_append] at hfuel
     omega
    obtain ⟨hwritten, hplaced⟩ := hlast stack before h
    dsimp only
    split
    · next hcode =>
      split
      · obtain ⟨hwritten', hplaced'⟩ := hlast _ tag.written hplaced
        obtain ⟨hread, hall⟩ := ih _ (min noCodeCloseFrom (length - after.length)) after hafter hplaced'
        refine ⟨?_, hall⟩
        rw [hread, hwritten', hwritten, hsplit]
        simp
      · next content closing after' hclose =>
        have hclose : codeClose after = some (content, closing, after') := by
         split at hclose
         · exact hclose
         · cases hclose
        obtain ⟨hsplit', hcloses⟩ := codeClose_split after content closing after' hclose
        rw [hcode.1, hcode.2] at htag
        have hafter' : after'.length ≤ fuel := by
         rw [hsplit'] at hafter
         simp only [List.length_append] at hafter
         omega
        have hfull : ∀ s : Stack (List Piece), s.full = true ↔ maxNesting ≤ s.opened.length := fun s => by
         simp [Stack.full]
        obtain ⟨hread, hall⟩ := ih _ noCodeCloseFrom after' hafter'
         (placed_gather _ (.code _ tag.attribute tag.written content closing) hplaced
          ⟨hfull _, htag, hcloses⟩)
        refine ⟨?_, hall⟩
        refine hread.trans ?_
        rw [written_gather, hwritten, hsplit, hsplit']
        simp [Piece.written]
    · obtain ⟨hwritten', hplaced'⟩ := handleTag_keeps tag _ htag hplaced
      obtain ⟨hread, hall⟩ := ih _ noCodeCloseFrom after hafter hplaced'
      refine ⟨?_, hall⟩
      rw [hread, hwritten', hwritten, hsplit]
      simp

theorem trace_keeps (source : Text) :
  writtenAll (trace source) = source ∧ PlacedAll 0 False (trace source) := by
 have hempty : (openRoot pieceBuilder).Placed := ⟨rfl, trivial, trivial⟩
 obtain ⟨hwritten, hplaced⟩ := readTags_keeps source.length source.length (openRoot pieceBuilder)
  source.length source le_rfl hempty
 have hall := placed_leaveAll (readTags pieceBuilder source.length source.length
  (openRoot pieceBuilder) source.length source).opened.length _ hplaced
 have hsame := written_leaveAll (readTags pieceBuilder source.length source.length
  (openRoot pieceBuilder) source.length source).opened.length
  (readTags pieceBuilder source.length source.length (openRoot pieceBuilder) source.length source)
 have hnames := leaveAll_opened_names pieceBuilder
  (readTags pieceBuilder source.length source.length (openRoot pieceBuilder) source.length
   source).opened.length
  (readTags pieceBuilder source.length source.length (openRoot pieceBuilder) source.length source)
 rw [List.drop_of_length_le (by rw [List.length_map]), List.map_eq_nil_iff] at hnames
 rw [hwritten, Stack.written, hnames] at hsame
 refine ⟨?_, hall.root⟩
 simpa [trace, parseWith, openWritten, Stack.written, openRoot, pieceBuilder, writtenAll] using hsame

end Loop

end BoardGamesEmpire.Bbcode
