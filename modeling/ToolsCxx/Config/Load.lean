import ToolsCxx.Config.Format
import Mathlib.Data.List.Nodup
import Mathlib.Data.List.Perm.Basic

/-! # `ConfigFile`: writing, loading and reloading

`load_written`: the text that is written for some items is read as these items, in whatever order
they are written and whatever other lines stand between them.

`load` inserts into the store, and does not replace: a file that is loaded again gives a name the
content it had when the first of the loaded files that has it was read (`find_loadAll`).
`takes_effect_iff`: reloading takes effect if and only if no name changes its content. -/

namespace ToolsCxx.Config.Load

open ToolsCxx.Lib.OrderedMap ToolsCxx.Config.Model ToolsCxx.Config.Format

/-! ### Written texts -/

/-- An item that can be written. -/
structure Item where
  name : List Char
  content : List Char
  name_ne_nil : name ≠ []
  noEquals : '=' ∉ name
  noNewline : '\n' ∉ name ∧ '\n' ∉ content
  start : ∀ c ∈ name.head?, c ∉ [' ', '#', '[', '\t', '\r']
  nameEnd : ' ' ∉ name.getLast?
  contentStart : ' ' ∉ content.head?
  contentEnd : ' ' ∉ content.getLast?

/-- A line of a text: an item with some blanks, or one without an item. -/
inductive Line where
  | item (i : Item) (before after trailing : ℕ)
  | empty
  /-- a line that starts with `#`, `[`, a tab or a carriage return -/
  | skipped (c : Char) (rest : List Char) (hc : c ∈ ['#', '[', '\t', '\r']) (hrest : '\n' ∉ rest)
  /-- a line without `=` -/
  | noEquals (text : List Char) (h : '=' ∉ text) (hnew : '\n' ∉ text)

def blanks (n : ℕ) : List Char := List.replicate n ' '

/-- What is written for a line. -/
def Line.text : Line → List Char
  | .item i before after trailing =>
    i.name ++ blanks before ++ '=' :: (blanks after ++ i.content ++ blanks trailing)
  | .empty => []
  | .skipped c rest _ _ => c :: rest
  | .noEquals text _ _ => text

def Line.item? : Line → Option Item
  | .item i _ _ _ => some i
  | _ => none

/-- The text of some lines, with or without a newline at its end. -/
def render (lines : List Line) (final : Bool) : List Char :=
  ['\n'].intercalate (lines.map Line.text) ++ if final then ['\n'] else []

/-! ### Stripping -/

theorem dropWhile_of_head {text : List Char} (h : ' ' ∉ text.head?) :
    text.dropWhile (· = ' ') = text := by
  cases text with
  | nil => rfl
  | cons c text =>
    have hc : c ≠ ' ' := fun hx => h (by rw [hx]; rfl)
    exact List.dropWhile_cons_of_neg (by simpa using hc)

theorem mem_blanks {n : ℕ} {c : Char} (h : c ∈ blanks n) : c = ' ' := List.eq_of_mem_replicate h

theorem dropWhile_blanks (n : ℕ) (text : List Char) :
    (blanks n ++ text).dropWhile (· = ' ') = text.dropWhile (· = ' ') :=
  List.dropWhile_append_of_pos fun _ hc => decide_eq_true (mem_blanks hc)

theorem reverse_blanks (n : ℕ) : (blanks n).reverse = blanks n := List.reverse_replicate

theorem strip_blanks (n m : ℕ) {text : List Char} (hstart : ' ' ∉ text.head?)
    (hend : ' ' ∉ text.getLast?) : strip (blanks n ++ text ++ blanks m) = text := by
  have hback : text.reverse.dropWhile (· = ' ') = text.reverse :=
    dropWhile_of_head (by rw [List.head?_reverse]; exact hend)
  unfold strip List.rdropWhile
  rw [List.append_assoc, dropWhile_blanks]
  rcases eq_or_ne text [] with rfl | hne
  · rw [List.nil_append]
    have hall : (blanks m).dropWhile (· = ' ') = [] :=
      List.dropWhile_eq_nil_iff.mpr fun c hc => decide_eq_true (mem_blanks hc)
    rw [hall]
    rfl
  · have hfront : ' ' ∉ (text ++ blanks m).head? := by
      rw [List.head?_append_of_ne_nil _ hne]
      exact hstart
    rw [dropWhile_of_head hfront, List.reverse_append, reverse_blanks, dropWhile_blanks, hback,
      List.reverse_reverse]

/-! ### Reading what has been written -/

/-- A line with an item: what is before the first `=` and what is after it. -/
theorem item_append {front rest : List Char} (hne : front ≠ []) (heq : '=' ∉ front)
    (hstart : ∀ c ∈ front.head?, c ∉ ['#', '[', '\t', '\r', '\n']) :
    item (front ++ '=' :: rest) = some (strip front, strip rest) := by
  obtain ⟨c, front', rfl⟩ := List.exists_cons_of_ne_nil hne
  have hfront : ∀ x ∈ c :: front', decide (x ≠ '=') = true := fun x hx =>
    decide_eq_true fun he => heq (he ▸ hx)
  have hdrop : (c :: (front' ++ '=' :: rest)).dropWhile (· ≠ '=') = '=' :: rest := by
    rw [← List.cons_append, List.dropWhile_append_of_pos hfront]
    exact List.dropWhile_cons_of_neg (by simp)
  have htake : (c :: (front' ++ '=' :: rest)).takeWhile (· ≠ '=') = c :: front' := by
    rw [← List.cons_append, List.takeWhile_append_of_pos hfront,
      List.takeWhile_cons_of_neg (by simp), List.append_nil]
  rw [List.cons_append, item, if_neg (hstart c rfl), hdrop, htake]

theorem item_of_noEquals {text : List Char} (h : '=' ∉ text) : item text = none := by
  cases text with
  | nil => rfl
  | cons c text =>
    have hdrop : (c :: text).dropWhile (· ≠ '=') = [] :=
      List.dropWhile_eq_nil_iff.mpr fun x hx => decide_eq_true fun he => h (he ▸ hx)
    rw [item, hdrop]
    split_ifs <;> rfl

/-- **A line is read as it was meant.** -/
theorem item_text (line : Line) :
    item line.text = line.item?.map fun i => (i.name, i.content) := by
  cases line with
  | empty => rfl
  | noEquals text h => exact item_of_noEquals h
  | skipped c rest hc =>
    have hmem : c ∈ ['#', '[', '\t', '\r', '\n'] := List.mem_append_left ['\n'] hc
    show item (c :: rest) = none
    rw [item, if_pos hmem]
  | item i before after trailing =>
    have hne : i.name ++ blanks before ≠ [] := fun hx =>
      i.name_ne_nil (List.append_eq_nil_iff.mp hx).1
    have heq : '=' ∉ i.name ++ blanks before := fun hx => by
      rcases List.mem_append.mp hx with hx | hx
      · exact i.noEquals hx
      · exact absurd (mem_blanks hx) (by decide)
    have hname : ' ' ∉ i.name.head? := fun hx => i.start ' ' hx List.mem_cons_self
    have hstart : ∀ c ∈ (i.name ++ blanks before).head?, c ∉ ['#', '[', '\t', '\r', '\n'] := by
      rw [List.head?_append_of_ne_nil _ i.name_ne_nil]
      intro c hc hmem
      rcases List.mem_append.mp (show c ∈ ['#', '[', '\t', '\r'] ++ ['\n'] from hmem) with hx | hx
      · exact i.start c hc (List.mem_cons_of_mem _ hx)
      · rw [List.mem_singleton.mp hx] at hc
        exact i.noNewline.1 (List.mem_of_mem_head? hc)
    have hfront : strip (i.name ++ blanks before) = i.name :=
      strip_blanks 0 before hname i.nameEnd
    show item (i.name ++ blanks before ++ '=' :: _) = some (i.name, i.content)
    rw [item_append hne heq hstart, hfront,
      strip_blanks after trailing i.contentStart i.contentEnd]

theorem noNewline_text (line : Line) : '\n' ∉ line.text := by
  have hblanks : ∀ n, '\n' ∉ blanks n := fun n hx => absurd (mem_blanks hx) (by decide)
  cases line with
  | empty => exact List.not_mem_nil
  | noEquals text h hnew => exact hnew
  | skipped c rest hc hrest =>
    intro hx
    rcases List.mem_cons.mp hx with rfl | hx
    · exact absurd hc (by decide)
    · exact hrest hx
  | item i before after trailing =>
    show '\n' ∉ i.name ++ blanks before ++ '=' :: (blanks after ++ i.content ++ blanks trailing)
    simp only [List.mem_append, List.mem_cons, not_or]
    exact ⟨⟨i.noNewline.1, hblanks _⟩, by decide, ⟨hblanks _, i.noNewline.2⟩, hblanks _⟩

/-- A newline at the end of a text adds an empty line. -/
theorem items_append_newline (text : List Char) : items (text ++ ['\n']) = items text := by
  unfold items
  rw [List.splitOn_append_cons_self, List.filterMap_append]
  exact List.append_nil _

/-- **A written text is read as it was meant.** -/
theorem items_render (lines : List Line) (final : Bool) : items (render lines final) =
    (lines.filterMap Line.item?).map fun i => (i.name, i.content) := by
  have hlines : items (['\n'].intercalate (lines.map Line.text)) =
      (lines.filterMap Line.item?).map fun i => (i.name, i.content) := by
    rcases eq_or_ne lines [] with rfl | hne
    · rfl
    · unfold items
      rw [List.splitOn_intercalate _ (by simpa using fun line _ => noNewline_text line)
        (by simpa using hne), List.filterMap_map, List.map_filterMap]
      exact List.filterMap_congr fun line _ => item_text line
  unfold render
  cases final with
  | false => exact (List.append_nil _).symm ▸ hlines
  | true => exact (items_append_newline _).trans hlines

/-- **Loading undoes writing**: for a table of items with distinct names, written in any order
between other lines, with or without a newline at the end, `load` makes a store that holds exactly
the table. -/
theorem load_written {table : List Item} (hnodup : (table.map Item.name).Nodup)
    {lines : List Line} (hlines : (lines.filterMap Line.item?).Perm table) (final : Bool) :
    ∃ store, load (some (render lines final)) ∅ = .ok store ∧
      ∀ name content, store.find name = some content ↔
        ∃ i ∈ table, i.name = name ∧ i.content = content := by
  refine ⟨_, load_eq _ _, fun name content => ?_⟩
  have hkeys : ((items (render lines final)).map Prod.fst).Nodup := by
    rw [items_render, List.map_map]
    exact ((hlines.map Item.name).nodup_iff).mpr hnodup
  rw [OrdMap.find_insertAll, OrdMap.find_empty, Option.none_or,
    OrdMap.lookup_eq_some_of_nodup hkeys, items_render, List.mem_map]
  constructor
  · rintro ⟨i, hi, hp⟩
    exact ⟨i, hlines.mem_iff.mp hi, congrArg Prod.fst hp, congrArg Prod.snd hp⟩
  · rintro ⟨i, hi, rfl, rfl⟩
    exact ⟨i, hlines.mem_iff.mpr hi, rfl⟩

/-- Two items, written in the other order. -/
def port : Item where
  name := ['p']
  content := ['8', '=']
  name_ne_nil := by decide
  noEquals := by decide
  noNewline := by decide
  start := by rintro c ⟨⟩; decide
  nameEnd := by decide
  contentStart := by decide
  contentEnd := by decide

def host : Item where
  name := ['h', ' ', 'o']
  content := []
  name_ne_nil := by decide
  noEquals := by decide
  noNewline := by decide
  start := by rintro c ⟨⟩; decide
  nameEnd := by decide
  contentStart := by decide
  contentEnd := by decide

theorem load_written_two : ∃ store,
    load (some (render [.item host 1 2 3, .empty, .item port 0 0 1] false)) ∅ = .ok store ∧
      ∀ name content, store.find name = some content ↔
        ∃ i ∈ [port, host], i.name = name ∧ i.content = content := by
  have hlines : ([Line.item host 1 2 3, .empty, .item port 0 0 1].filterMap Line.item?).Perm
      [port, host] := List.Perm.swap port host []
  exact load_written (by decide) hlines false

/-! ### Reloading -/

/-- The loads of some files, one after the other. -/
def loadAll (texts : List (List Char)) (store : Store) : Except Exception Store :=
  texts.foldlM (fun store text => load (some text) store) store

/-- The content that a text gives to a name: that of its first item with the name. -/
def contentOf (text name : List Char) : Option (List Char) := (items text).lookup name

/-- **What a name has after some loads**: the content of the first file that has it. -/
theorem find_loadAll (texts : List (List Char)) (store : Store) :
    ∃ store', loadAll texts store = .ok store' ∧
      ∀ name, store'.find name = (store.find name).or (texts.findSome? (contentOf · name)) := by
  induction texts generalizing store with
  | nil => exact ⟨store, rfl, fun name => Option.or_none.symm⟩
  | cons text texts ih =>
    obtain ⟨store₂, h₂, hfind₂⟩ := ih ((items text).foldl (fun m p => m.insertNew p.1 p.2) store)
    refine ⟨store₂, ?_, fun name => ?_⟩
    · show (load (some text) store >>= loadAll texts) = .ok store₂
      rw [load_eq]
      exact h₂
    · rw [hfind₂, find_load (load_eq text store), Option.or_assoc, List.findSome?_cons]
      unfold contentOf
      cases (items text).lookup name <;> rfl

/-- **Reloading takes effect**: after the last load every name that the last file has is stored with
the content that this file gives to it. -/
def TakesEffect (earlier : List (List Char)) (last : List Char) : Prop :=
  ∃ store, loadAll (earlier ++ [last]) ∅ = .ok store ∧
    ∀ name content, contentOf last name = some content → store.find name = some content

/-- It does so if and only if each name of the last file that an earlier file has too was given the
same content by the first of them. -/
theorem takes_effect_iff (earlier : List (List Char)) (last : List Char) :
    TakesEffect earlier last ↔ ∀ name content, contentOf last name = some content →
      ∀ old, earlier.findSome? (contentOf · name) = some old → old = content := by
  obtain ⟨store, hload, hfind⟩ := find_loadAll (earlier ++ [last]) ∅
  have hstore : ∀ name content, contentOf last name = some content →
      store.find name = (earlier.findSome? (contentOf · name)).or (some content) := by
    intro name content hlast
    rw [hfind, OrdMap.find_empty, Option.none_or, List.findSome?_append, List.findSome?_cons, hlast]
  constructor
  · rintro ⟨store', hload', h⟩ name content hlast old hold
    obtain rfl : store = store' := Except.ok.inj (hload.symm.trans hload')
    have hname := h name content hlast
    rw [hstore name content hlast, hold] at hname
    exact Option.some.inj hname
  · intro h
    refine ⟨store, hload, fun name content hlast => ?_⟩
    rw [hstore name content hlast]
    cases hold : earlier.findSome? (contentOf · name) with
    | none => rfl
    | some old => exact congrArg some (h name content hlast old hold)

/-- The content of `a` is changed from 1 to 2. -/
theorem not_takes_effect : ¬ TakesEffect [['a', '=', '1']] ['a', '=', '2'] := by
  rintro ⟨store, hload, h⟩
  obtain ⟨store', hload', hfind⟩ := find_loadAll ([['a', '=', '1']] ++ [['a', '=', '2']]) ∅
  obtain rfl : store' = store := Except.ok.inj (hload'.symm.trans hload)
  have hname := (hfind ['a']).symm.trans (h ['a'] ['2'] (by decide))
  exact absurd hname (by decide)

end ToolsCxx.Config.Load
