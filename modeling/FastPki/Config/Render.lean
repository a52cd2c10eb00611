import FastPki.Config.File

namespace FastPki.Config

open X509 Ascii

/-- A setting as the console shows it: a secret is shown as set or not set. -/
structure CfgItem where
  area : Octets
  key : Octets
  value : Octets
  deriving DecidableEq

/-- The settings a text of the configuration is about. -/
def offered (catalog : List CfgItem) : List CfgItem :=
  catalog.filter fun it => !isBootstrapConfigKey it.key && !isFileEditorExcludedKey it.key

/-- Values by their keys; the key of the stored text has none. -/
def valuesOf (catalog : List CfgItem) : Settings :=
  catalog.foldl (fun m it => if isFileEditorExcludedKey it.key then m else m.insert it.key it.value)
    .empty

def rule : Octets := octets "──"

/-- The line a section begins with. -/
def sectionMark : Octets := octets "# "++rule++[space]

def sectionLine (area : Octets) : Octets := sectionMark++area++space::rule

def settingLine (key value : Octets) : Octets := key++equals::value

def configFileHeader : List Octets := [
  octets "# ── FastPKI configuration (this data center) ──",
  octets "# The full effective configuration. bootstrap.conf is always read; the values below",
  octets "# are bootstrap.conf with this data center's DB overrides applied. Edit any value and",
  octets "# Save: only values that DIFFER from the bootstrap.conf default are stored as",
  octets "# overrides (local to this data center, not replicated). Delete a line to revert",
  octets "# that setting to its bootstrap.conf default. Secrets show as (set) — leave that to",
  octets "# keep the current value, or type a new one. Save, then Restart to apply.",
  []]

/-- The lines of the settings, each section under its own line. -/
def bodyLines (base : Settings) (area : Option Octets) : List CfgItem → List Octets
  | [] => []
  | it::items =>
    (if area = some it.area then [] else [sectionLine it.area])++
    (match base.find it.key with
      | none => []
      | some b => if b = it.value then []
          else [octets "# (overrides bootstrap.conf default: "++b++octets ")"])++
    settingLine it.key it.value::bodyLines base (some it.area) items

def configFileText (catalog base : List CfgItem) : Octets :=
  putlines newline (configFileHeader++bodyLines (valuesOf base) none (offered catalog))

/-- The text under work: the keys it mentions, and its lines so far. -/
structure Pass where
  seen : List Octets
  out : List Octets

/-- The settings of a section that the text does not mention. -/
def flushSection (items : List CfgItem) (area : Octets) (p : Pass) : Pass :=
  items.foldl (fun p it =>
    if !p.seen.contains it.key ∧ it.area = area then
      ⟨it.key::p.seen,p.out++[settingLine it.key it.value]⟩
    else p) p

/-- The name in the line of a section, up to the rule behind it. -/
def sectionName (line : Octets) : Octets :=
  let name := line.drop sectionMark.length
  match splitFirst (space::rule) name with
  | none => name
  | some r => r.1

def closeSection (items : List CfgItem) (cur : Octets) (p : Pass) : Pass :=
  if cur = [] then p else flushSection items cur p

def refreshLines (items : List CfgItem) (val : Settings) (cur : Octets) (p : Pass) :
    List Octets → Pass
  | [] => closeSection items cur p
  | line::rest =>
    if sectionMark.isPrefixOf line then
      let p := closeSection items cur p
      refreshLines items val (sectionName line) { p with out := p.out++[line] } rest
    else
      let key := configFileLineKey line
      let line := match if key = [] then none else val.find key with
        | none => line
        | some v => settingLine key v
      refreshLines items val cur { p with out := p.out++[line] } rest

/-- The settings of the sections that the text does not have. -/
def extraLines (seen : List Octets) (last : Octets) : List CfgItem → List Octets
  | [] => []
  | it::items =>
    if seen.contains it.key then extraLines seen last items
    else (if it.area = last then [] else [sectionLine it.area])++
      settingLine it.key it.value::extraLines seen it.area items

def refreshConfigFile (stored : Octets) (catalog : List CfgItem) : Octets :=
  let items := offered catalog
  let val := valuesOf items
  let mentioned := ((fileLines stored).map configFileLineKey).filter fun k =>
    k ≠ [] && (val.find k).isSome
  let p := refreshLines items val [] ⟨mentioned,[]⟩ (fileLines stored)
  let extra := extraLines p.seen [] items
  putlines newline (p.out++if extra = [] then [] else []::extra)

section Lines

/-- A catalog whose settings stand on a line each. -/
structure Showable (catalog : List CfgItem) : Prop where
  nodup : (catalog.map CfgItem.key).Nodup
  key : ∀ it∈catalog,it.key≠[] ∧ it.key.all keyChar=true
  value : ∀ it∈catalog,newline∉it.value ∧ it.value.getLast?≠some carriageReturn ∧
    it.value.dropWhile isBlank=it.value
  area : ∀ it∈catalog,newline∉it.area

theorem Showable.keyForm {catalog : List CfgItem} (h : Showable catalog) {it : CfgItem}
    (hit : it∈catalog) : KeyForm it.key :=
  keyForm_of_keyChar (h.key it hit).1 (h.key it hit).2

theorem Showable.offered {catalog : List CfgItem} (h : Showable catalog) :
    Showable (offered catalog) := by
  have hsub : ∀ it∈Config.offered catalog,it∈catalog := fun it hit => List.mem_of_mem_filter hit
  exact ⟨h.nodup.sublist (List.filter_sublist.map _),fun it hit => h.key it (hsub it hit),
    fun it hit => h.value it (hsub it hit),fun it hit => h.area it (hsub it hit)⟩

theorem Showable.settingLine {catalog : List CfgItem} (h : Showable catalog) {it : CfgItem}
    (hit : it∈catalog) :
    configFileLineKey (settingLine it.key it.value)=it.key ∧
    settingValue (settingLine it.key it.value)=it.value ∧ Tidy [settingLine it.key it.value] := by
  have hform := h.keyForm hit
  obtain ⟨hnewline,hlast,hblank⟩ := h.value it hit
  refine ⟨configFileLineKey_append hform it.value,?_,?_⟩
  · rw [settingValue,Config.settingLine,lineValue_append hform.notMem,hblank]
  · intro l hl
    rw [List.mem_singleton.mp hl,Config.settingLine]
    refine ⟨fun hmem => ?_,?_⟩
    · obtain hmem|hmem := List.mem_append.mp hmem
      · exact absurd (List.all_eq_true.mp (h.key it hit).2 newline hmem) (by decide)
      · obtain heq|hmem := List.mem_cons.mp hmem
        · exact absurd heq (by decide)
        · exact hnewline hmem
    · rw [List.getLast?_append_of_ne_nil _ (List.cons_ne_nil _ _)]
      cases hv : it.value with
      | nil => decide
      | cons c v =>
        rw [List.getLast?_cons_cons,← hv]
        exact hlast

theorem configFileLineKey_comment (s : Octets) : configFileLineKey (hash::s)=[] := by
  rw [configFileLineKey,List.dropWhile_cons_of_neg (by decide)]
  exact if_pos (Or.inl rfl)

theorem sectionMark_eq : ∃ s,sectionMark=hash::s := ⟨sectionMark.tail,by decide⟩

theorem configFileLineKey_of_isPrefixOf {l : Octets} (h : sectionMark.isPrefixOf l=true) :
    configFileLineKey l=[] := by
  obtain ⟨s,hs⟩ := sectionMark_eq
  obtain ⟨t,rfl⟩ := List.isPrefixOf_iff_prefix.mp h
  rw [hs,List.cons_append]
  exact configFileLineKey_comment _

theorem configFileLineKey_sectionLine (area : Octets) : configFileLineKey (sectionLine area)=[] := by
  apply configFileLineKey_of_isPrefixOf
  rw [List.isPrefixOf_iff_prefix,sectionLine,List.append_assoc]
  exact List.prefix_append _ _

theorem tidy_sectionLine {area : Octets} (h : newline∉area) : Tidy [sectionLine area] := by
  intro l hl
  rw [List.mem_singleton.mp hl,sectionLine]
  refine ⟨fun hmem => ?_,?_⟩
  · rw [List.mem_append,List.mem_append] at hmem
    obtain (hmem|hmem)|hmem := hmem
    · exact absurd hmem (by decide)
    · exact h hmem
    · exact absurd hmem (by decide)
  · rw [List.getLast?_append_of_ne_nil _ (List.cons_ne_nil _ _)]
    decide

theorem tidy_append {ls ms : List Octets} (hl : Tidy ls) (hm : Tidy ms) : Tidy (ls++ms) :=
  fun l h => (List.mem_append.mp h).elim (hl l) (hm l)

theorem offered_key {catalog : List CfgItem} {it : CfgItem} (h : it∈offered catalog) :
    isBootstrapConfigKey it.key=false ∧ isFileEditorExcludedKey it.key=false := by
  have hp := List.of_mem_filter h
  simpa using hp

theorem foldl_valuesOf_find {catalog : List CfgItem} (hnodup : (catalog.map CfgItem.key).Nodup)
    (m : Settings) (k v : Octets) :
    (catalog.foldl (fun m it => if isFileEditorExcludedKey it.key then m
      else m.insert it.key it.value) m).find k=some v ↔
    (∃ it∈catalog,it.key=k ∧ it.value=v ∧ isFileEditorExcludedKey k=false) ∨
      (m.find k=some v ∧ (isFileEditorExcludedKey k=false → ∀ it∈catalog,it.key≠k)) := by
  induction catalog generalizing m with
  | nil => simp
  | cons a catalog ih =>
    obtain ⟨hnot,hrest⟩ := List.nodup_cons.mp hnodup
    have hne : ∀ it∈catalog,it.key≠a.key := fun it hit heq =>
      hnot (heq ▸ List.mem_map_of_mem hit)
    rw [List.foldl_cons,ih hrest]
    by_cases hex : isFileEditorExcludedKey a.key=true
    · rw [if_pos hex]
      grind
    · rw [if_neg hex,OrderedMap.find_insert]
      grind

/-- The values of a catalog are those of its settings. -/
theorem valuesOf_find {catalog : List CfgItem} (hnodup : (catalog.map CfgItem.key).Nodup)
    {k v : Octets} :
    (valuesOf catalog).find k=some v ↔
      ∃ it∈catalog,it.key=k ∧ it.value=v ∧ isFileEditorExcludedKey k=false := by
  rw [valuesOf,foldl_valuesOf_find hnodup]
  simp

end Lines

section Refresh

variable {items : List CfgItem} {stored done : List Octets} {p : Pass}

/-- How far the text has come: it has the lines of the stored text up to `done`, each setting of the
catalog at its value, and of a key that is mentioned a line is there or still to come. -/
structure Follows (items : List CfgItem) (stored done : List Octets) (p : Pass) : Prop where
  tidy : Tidy p.out
  agree : ∀ l∈p.out,∀ it∈items,configFileLineKey l=it.key → settingValue l=it.value
  kept : ∀ l∈done,configFileLineKey l≠[] → ∃ m∈p.out,configFileLineKey m=configFileLineKey l
  seen : ∀ k∈p.seen,(∃ l∈stored,configFileLineKey l=k) ∨ ∃ l∈p.out,configFileLineKey l=k
  other : ∀ k,(∀ it∈items,it.key≠k) → stated p.out k=stated done k

/-- Another line behind the text, whatever the stored text has there. -/
theorem Follows.push (h : Follows items stored done p) {done' seen : List Octets} {l : Octets}
    (htidy : Tidy [l]) (hagree : ∀ it∈items,configFileLineKey l=it.key → settingValue l=it.value)
    (hkept : ∀ m∈done',m∉done → configFileLineKey m≠[] → configFileLineKey m=configFileLineKey l)
    (hseen : ∀ k∈seen,k∈p.seen ∨ configFileLineKey l=k)
    (hother : ∀ k,(∀ it∈items,it.key≠k) → (stated [l] k).or (stated done k)=stated done' k) :
    Follows items stored done' ⟨seen,p.out++[l]⟩ where
  tidy := tidy_append h.tidy htidy
  agree m hm it hit hkey := by
    obtain hm|hm := List.mem_append.mp hm
    · exact h.agree m hm it hit hkey
    · cases List.mem_singleton.mp hm
      exact hagree it hit hkey
  kept m hm hne := by
    by_cases hdone : m∈done
    · obtain ⟨n,hn,hkey⟩ := h.kept m hdone hne
      exact ⟨n,List.mem_append_left _ hn,hkey⟩
    · exact ⟨l,by simp,(hkept m hm hdone hne).symm⟩
  seen k hk := by
    obtain hk|hk := hseen k hk
    · obtain hmem|⟨n,hn,hkey⟩ := h.seen k hk
      · exact Or.inl hmem
      · exact Or.inr ⟨n,List.mem_append_left _ hn,hkey⟩
    · exact Or.inr ⟨l,by simp,hk⟩
  other k hk := by
    rw [stated_append,h.other k hk]
    exact hother k hk

theorem stated_singleton (l k : Octets) :
    stated [l] k=if k≠[] ∧ configFileLineKey l=k then some (settingValue l) else none := by
  rw [stated,stated,Option.none_or]

theorem value_eq_of_key_eq (h : Showable items) {a b : CfgItem} (ha : a∈items) (hb : b∈items)
    (hkey : a.key=b.key) : a=b := List.inj_on_of_nodup_map h.nodup ha hb hkey

theorem Follows.flush (hshow : Showable items) (area : Octets) {l : List CfgItem}
    (hsub : ∀ it∈l,it∈items) (h : Follows items stored done p) :
    Follows items stored done (flushSection l area p) := by
  induction l generalizing p with
  | nil => exact h
  | cons a l ih =>
    rw [flushSection,List.foldl_cons]
    have ha := hsub a List.mem_cons_self
    have hrest : ∀ it∈l,it∈items := fun it hit => hsub it (List.mem_cons_of_mem a hit)
    split_ifs with hcase
    · obtain ⟨hkey,hvalue,htidy⟩ := hshow.settingLine ha
      refine ih hrest (h.push htidy ?_ (fun m hm hno => absurd hm hno) ?_ ?_)
      · intro it hit heq
        rw [hvalue,value_eq_of_key_eq hshow ha hit (hkey.symm.trans heq)]
      · intro k hk
        exact (List.mem_cons.mp hk).elim (fun heq => Or.inr (heq ▸ hkey)) Or.inl
      · intro k hk
        rw [stated_singleton,if_neg fun heq => hk a ha (hkey.symm.trans heq.2),Option.none_or]
    · exact ih hrest h

theorem Follows.close (hshow : Showable items) (cur : Octets) (h : Follows items stored done p) :
    Follows items stored done (closeSection items cur p) := by
  rw [closeSection]
  split_ifs
  · exact h
  · exact h.flush hshow cur fun it hit => hit

/-- A line that names no key of the catalog stays as it is. -/
theorem Follows.keep (h : Follows items stored done p) {l : Octets} (htidy : Tidy [l])
    (hkey : ∀ it∈items,configFileLineKey l≠it.key) :
    Follows items stored (done++[l]) { p with out := p.out++[l] } := by
  refine h.push htidy (fun it hit heq => absurd heq (hkey it hit)) ?_ (fun k hk => Or.inl hk) ?_
  · intro m hm hno _
    obtain hm|hm := List.mem_append.mp hm
    · exact absurd hm hno
    · rw [List.mem_singleton.mp hm]
  · intro k _
    rw [stated_append]

/-- A line of the catalog gets the value that holds. -/
theorem Follows.renew (hshow : Showable items) (h : Follows items stored done p) {l : Octets}
    {it : CfgItem} (hit : it∈items) (hkey : configFileLineKey l=it.key) :
    Follows items stored (done++[l]) { p with out := p.out++[settingLine it.key it.value] } := by
  obtain ⟨hkey',hvalue,htidy⟩ := hshow.settingLine hit
  refine h.push htidy (fun it' hit' heq => ?_) ?_ (fun k hk => Or.inl hk) ?_
  · rw [hvalue,value_eq_of_key_eq hshow hit hit' (hkey'.symm.trans heq)]
  · intro m hm hno _
    obtain hm|hm := List.mem_append.mp hm
    · exact absurd hm hno
    · rw [List.mem_singleton.mp hm,hkey,hkey']
  · intro k hk
    rw [stated_append,stated_singleton,stated_singleton,hkey,hkey',
      if_neg fun heq => hk it hit heq.2,if_neg fun heq => hk it hit heq.2]

theorem refreshLines_follows (hshow : Showable items)
    (hex : ∀ it∈items,isFileEditorExcludedKey it.key=false) {rest : List Octets}
    (htidy : Tidy rest) {cur : Octets} (h : Follows items stored done p) :
    Follows items stored (done++rest) (refreshLines items (valuesOf items) cur p rest) := by
  induction rest generalizing done cur p with
  | nil =>
    rw [List.append_nil]
    exact h.close hshow cur
  | cons l rest ih =>
    have hl : Tidy [l] := fun m hm => htidy m (List.mem_singleton.mp hm ▸ List.mem_cons_self)
    have hrest : Tidy rest := fun m hm => htidy m (List.mem_cons_of_mem l hm)
    have hlast : done++l::rest=(done++[l])++rest := by simp
    rw [refreshLines,hlast]
    split_ifs with hmark
    · have hkey := configFileLineKey_of_isPrefixOf hmark
      exact ih hrest ((h.close hshow cur).keep hl fun it hit heq =>
        (hshow.key it hit).1 (heq.symm.trans hkey))
    by_cases hnone : configFileLineKey l=[]
    · simp only [if_pos hnone]
      exact ih hrest (h.keep hl fun it hit heq => (hshow.key it hit).1 (heq.symm.trans hnone))
    simp only [if_neg hnone]
    cases hfind : (valuesOf items).find (configFileLineKey l) with
    | none =>
      refine ih hrest (h.keep hl fun it hit heq => ?_)
      have hsome := (valuesOf_find hshow.nodup).mpr ⟨it,hit,rfl,rfl,hex it hit⟩
      rw [← heq,hfind] at hsome
      cases hsome
    | some v =>
      obtain ⟨it,hit,hkey,rfl,-⟩ := (valuesOf_find hshow.nodup).mp hfind
      simp only [← hkey]
      exact ih hrest (h.renew hshow hit hkey.symm)

/-- Lines that are comments, or give a setting its value. -/
def Lists (items : List CfgItem) (ls : List Octets) : Prop :=
  Tidy ls ∧ ∀ l∈ls,configFileLineKey l=[] ∨
    ∃ it∈items,configFileLineKey l=it.key ∧ settingValue l=it.value

theorem Lists.append {ls ms : List Octets} (hl : Lists items ls) (hm : Lists items ms) :
    Lists items (ls++ms) :=
  ⟨tidy_append hl.1 hm.1,fun l h => (List.mem_append.mp h).elim (hl.2 l) (hm.2 l)⟩

theorem lists_nil : Lists items [] := ⟨nofun,nofun⟩

theorem lists_of_silent {l : Octets} (hl : Tidy [l]) (hkey : configFileLineKey l=[]) :
    Lists items [l] :=
  ⟨hl,fun _ hm => Or.inl (List.mem_singleton.mp hm ▸ hkey)⟩

theorem lists_sectionLine (hshow : Showable items) {it : CfgItem} (hit : it∈items) :
    Lists items [sectionLine it.area] :=
  lists_of_silent (tidy_sectionLine (hshow.area it hit)) (configFileLineKey_sectionLine it.area)

theorem lists_settingLine (hshow : Showable items) {it : CfgItem} (hit : it∈items) :
    Lists items [settingLine it.key it.value] := by
  obtain ⟨hkey,hvalue,htidy⟩ := hshow.settingLine hit
  exact ⟨htidy,fun _ hm => Or.inr ⟨it,hit,List.mem_singleton.mp hm ▸ ⟨hkey,hvalue⟩⟩⟩

theorem Lists.agree (hshow : Showable items) {ls : List Octets} (h : Lists items ls)
    {it : CfgItem} (hit : it∈items) {l : Octets} (hl : l∈ls) (hkey : configFileLineKey l=it.key) :
    settingValue l=it.value := by
  obtain hnone|⟨a,ha,hkey',hvalue⟩ := h.2 l hl
  · exact absurd (hkey.symm.trans hnone) (hshow.key it hit).1
  · rw [hvalue,value_eq_of_key_eq hshow ha hit (hkey'.symm.trans hkey)]

theorem Lists.stated_none {ls : List Octets} (h : Lists items ls) {k : Octets}
    (hk : ∀ it∈items,it.key≠k) : stated ls k=none := by
  by_cases hne : k=[]
  · rw [hne,stated_nil_key]
  · rw [stated_eq_none_iff hne]
    rintro l hl rfl
    obtain hnone|⟨it,hit,hkey,-⟩ := h.2 l hl
    · exact hne hnone
    · exact hk it hit hkey.symm

theorem extraLines_spec (hshow : Showable items) (seen : List Octets) (last : Octets)
    {l : List CfgItem} (hsub : ∀ it∈l,it∈items) :
    Lists items (extraLines seen last l) ∧
    ∀ it∈l,it.key∉seen → ∃ m∈extraLines seen last l,configFileLineKey m=it.key := by
  induction l generalizing last with
  | nil => exact ⟨lists_nil,nofun⟩
  | cons a l ih =>
    have ha := hsub a List.mem_cons_self
    have hrest : ∀ it∈l,it∈items := fun it hit => hsub it (List.mem_cons_of_mem a hit)
    rw [extraLines]
    simp only [List.contains_iff_mem]
    by_cases hseen : a.key∈seen
    · rw [if_pos hseen]
      obtain ⟨hlists,hall⟩ := ih last hrest
      refine ⟨hlists,fun it hit hno => ?_⟩
      obtain rfl|hit := List.mem_cons.mp hit
      · exact absurd hseen hno
      · exact hall it hit hno
    · rw [if_neg hseen]
      obtain ⟨hlists,hall⟩ := ih a.area hrest
      have hhead : Lists items (if a.area=last then [] else [sectionLine a.area]) := by
        split_ifs
        · exact lists_nil
        · exact lists_sectionLine hshow ha
      refine ⟨hhead.append ((lists_settingLine hshow ha).append hlists),fun it hit hno => ?_⟩
      obtain rfl|hit := List.mem_cons.mp hit
      · exact ⟨_,List.mem_append_right _ List.mem_cons_self,(hshow.settingLine ha).1⟩
      · obtain ⟨m,hm,heq⟩ := hall it hit hno
        exact ⟨m,List.mem_append_right _ (List.mem_cons_of_mem _ hm),heq⟩

/-- The text of a configuration with nothing stored. -/
theorem bodyLines_spec (hshow : Showable items) {base : Settings}
    (hbase : ∀ k v,base.find k=some v → newline∉v) (area : Option Octets) {l : List CfgItem}
    (hsub : ∀ it∈l,it∈items) :
    Lists items (bodyLines base area l) ∧
    ∀ it∈l,∃ m∈bodyLines base area l,configFileLineKey m=it.key := by
  induction l generalizing area with
  | nil => exact ⟨lists_nil,nofun⟩
  | cons a l ih =>
    have ha := hsub a List.mem_cons_self
    obtain ⟨hlists,hall⟩ := ih (some a.area) fun it hit => hsub it (List.mem_cons_of_mem a hit)
    have hhead : Lists items (if area=some a.area then [] else [sectionLine a.area]) := by
      split_ifs
      · exact lists_nil
      · exact lists_sectionLine hshow ha
    have hnote : Lists items (match base.find a.key with
        | none => []
        | some b => if b=a.value then []
            else [octets "# (overrides bootstrap.conf default: "++b++octets ")"]) := by
      cases hfind : base.find a.key with
      | none => exact lists_nil
      | some b =>
        simp only
        split_ifs
        · exact lists_nil
        · refine lists_of_silent ?_ (configFileLineKey_comment _)
          intro m hm
          rw [List.mem_singleton.mp hm]
          refine ⟨fun hmem => ?_,?_⟩
          · rw [List.mem_append,List.mem_append] at hmem
            obtain (hmem|hmem)|hmem := hmem
            · exact absurd hmem (by decide)
            · exact hbase a.key b hfind hmem
            · exact absurd hmem (by decide)
          · rw [List.getLast?_append_of_ne_nil _ (by decide)]
            decide
    rw [bodyLines]
    refine ⟨(hhead.append hnote).append ((lists_settingLine hshow ha).append hlists),
      fun it hit => ?_⟩
    obtain rfl|hit := List.mem_cons.mp hit
    · exact ⟨_,List.mem_append_right _ List.mem_cons_self,(hshow.settingLine ha).1⟩
    · obtain ⟨m,hm,heq⟩ := hall it hit
      exact ⟨m,List.mem_append_right _ (List.mem_cons_of_mem _ hm),heq⟩

/-- A text shows a catalog over another text: each of its settings at the value it has, and under any
other key what the other text says. -/
def ShowsOver (catalog : List CfgItem) (text : Octets) (ls : List Octets) : Prop :=
  (∀ it∈offered catalog,stated (fileLines text) it.key=some it.value) ∧
  ∀ k,(∀ it∈offered catalog,it.key≠k) → stated (fileLines text) k=stated ls k

theorem configFileText_shows {catalog base : List CfgItem} (hshow : Showable catalog)
    (hbase : Showable base) : ShowsOver catalog (configFileText catalog base) [] := by
  have hoff := hshow.offered
  have hvalues : ∀ k v,(valuesOf base).find k=some v → newline∉v := by
    intro k v hfind
    obtain ⟨it,hit,-,rfl,-⟩ := (valuesOf_find hbase.nodup).mp hfind
    exact (hbase.value it hit).1
  obtain ⟨hbody,hall⟩ := bodyLines_spec hoff hvalues none fun it hit => hit
  have hheader : Lists (offered catalog) configFileHeader := by
    constructor
    · have hdec : ∀ l∈configFileHeader,newline∉l ∧ l.getLast?≠some carriageReturn := by
        decide +kernel
      exact hdec
    · have hdec : ∀ l∈configFileHeader,configFileLineKey l=[] := by decide +kernel
      exact fun l hl => Or.inl (hdec l hl)
  have hlists := hheader.append hbody
  rw [ShowsOver,configFileText,fileLines_putlines hlists.1]
  refine ⟨fun it hit => ?_,fun k hk => hlists.stated_none hk⟩
  obtain ⟨m,hm,hkey⟩ := hall it hit
  exact stated_eq_some (hoff.key it hit).1 (fun l hl => hlists.agree hoff hit hl)
    ⟨m,List.mem_append_right _ hm,hkey⟩

theorem refreshConfigFile_shows {catalog : List CfgItem} {stored : Octets} (hshow : Showable catalog)
    (htidy : Tidy (fileLines stored)) :
    ShowsOver catalog (refreshConfigFile stored catalog) (fileLines stored) := by
  have hoff := hshow.offered
  set items := offered catalog with hitems
  set mentioned := ((fileLines stored).map configFileLineKey).filter fun k =>
    k ≠ [] && ((valuesOf items).find k).isSome with hmentioned
  set p := refreshLines items (valuesOf items) [] ⟨mentioned,[]⟩ (fileLines stored) with hp
  have hstart : Follows items (fileLines stored) [] ⟨mentioned,[]⟩ := by
    refine ⟨nofun,nofun,nofun,fun k hk => ?_,fun k _ => rfl⟩
    obtain ⟨l,hl,hkey⟩ := List.mem_map.mp (List.mem_of_mem_filter hk)
    exact Or.inl ⟨l,hl,hkey⟩
  have hfollows : Follows items (fileLines stored) (fileLines stored) p :=
    refreshLines_follows hoff (fun it hit => (offered_key hit).2) htidy hstart
  obtain ⟨hextra,hall⟩ := extraLines_spec hoff p.seen [] fun it hit => hit
  set tail := if extraLines p.seen [] items=[] then [] else []::extraLines p.seen [] items with htail
  have hblank : Lists items ([[]] : List Octets) :=
    lists_of_silent (fun l hl => List.mem_singleton.mp hl ▸ ⟨by decide,by decide⟩) rfl
  have htailLists : Lists items tail := by
    rw [htail]
    split_ifs
    · exact lists_nil
    · exact hblank.append hextra
  have htailAll : ∀ it∈items,it.key∉p.seen → ∃ m∈tail,configFileLineKey m=it.key := by
    intro it hit hno
    obtain ⟨m,hm,hkey⟩ := hall it hit hno
    rw [htail,if_neg fun hnil => by simp [hnil] at hm]
    exact ⟨m,List.mem_cons_of_mem _ hm,hkey⟩
  have hlines : fileLines (refreshConfigFile stored catalog)=p.out++tail :=
    fileLines_putlines (tidy_append hfollows.tidy htailLists.1)
  rw [ShowsOver,hlines,← hitems]
  refine ⟨fun it hit => ?_,fun k hk => ?_⟩
  · have hne := (hoff.key it hit).1
    refine stated_eq_some hne (fun l hl hkey => ?_) ?_
    · obtain hl|hl := List.mem_append.mp hl
      · exact hfollows.agree l hl it hit hkey
      · exact htailLists.agree hoff hit hl hkey
    · -- a key that the text mentions has its line there, and one that is new is behind it
      have hout : ∀ l∈fileLines stored,configFileLineKey l=it.key →
          ∃ m∈p.out++tail,configFileLineKey m=it.key := by
        intro l hl hkey
        obtain ⟨m,hm,heq⟩ := hfollows.kept l hl (hkey ▸ hne)
        exact ⟨m,List.mem_append_left _ hm,heq.trans hkey⟩
      by_cases hseen : it.key∈p.seen
      · obtain ⟨l,hl,hkey⟩|⟨m,hm,hkey⟩ := hfollows.seen it.key hseen
        · exact hout l hl hkey
        · exact ⟨m,List.mem_append_left _ hm,hkey⟩
      · obtain ⟨m,hm,hkey⟩ := htailAll it hit hseen
        exact ⟨m,List.mem_append_right _ hm,hkey⟩
  · rw [stated_append,htailLists.stated_none hk,Option.none_or,hfollows.other k hk]

end Refresh

end FastPki.Config
