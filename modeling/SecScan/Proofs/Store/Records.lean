import SecScan.Proofs.Files.Contents
import SecScan.Proofs.Json.Plain
import SecScan.Store.Archive

/-!
What is read of a graph that was written: the file of a graph is read as its stored form
(`readLines_lines`), which shows the image of all that the graph shows (`Graph.value_stored`).
-/

namespace SecScan.Store

open Value Text Json Header
open Json (image depth levelLimit)
open List SecScan.Store.Graph Json

variable {other : String} {α β : Type} {h : Header}
variable (kind : String) {g : Graph} {s : String} {l : List String} {es : Entries}
  {fields : Fields} {hd : Option Value} {k : Nat} {ls : List (Try String)}
  {w : Files.Workspace}

/-! ## Graphs that were written and read -/

/-- What is read of a node that was written. -/
def Node.stored (n : Node) : Node :=
  { id := image n.id, kind := image n.kind, place := .unread (image n.place.value), parent := image n.parent
    container := image n.container, attrs := image n.attrs }

def Edge.stored (e : Edge) : Edge :=
  { source := image e.source, target := image e.target, kind := image e.kind, guard := image e.guard }

def Symbol.stored (s : Symbol) : Symbol :=
  { name := image s.name, kind := image s.kind, container := image s.container, defs := image s.defs
    uses := image s.uses }

def Graph.stored (g : Graph) : Graph :=
  { nodes := g.nodes.map (·.stored), edges := g.edges.map (·.stored), symbols := g.symbols.map (·.stored) }

theorem Node.value_stored (n : Node) : n.stored.value = image n.value := by
  rw [value, value, image_obj (by simp)]
  rfl

theorem Edge.value_stored (e : Edge) : e.stored.value = image e.value := by
  rw [value, value, image_obj (by simp)]
  rfl

theorem Symbol.value_stored (s : Symbol) : s.stored.value = image s.value := by
  rw [value, value, image_obj (by simp)]
  rfl

/-- What is read shows what was written, as far as its text does. -/
theorem Graph.value_stored (g : Graph) : g.stored.value = image g.value := by
  rw [value, value, image_obj (by simp)]
  simp [image, imageAll_eq_map, stored, Function.comp_def, Node.value_stored, Edge.value_stored, Symbol.value_stored]

/-! ## Lines -/

theorem strip_rendered (h : Json.write {} (.map es) = .ok s) : strip s = s ∧ s ≠ "" := by
  obtain ⟨u, hu⟩ := Json.write_map Json.blank_plain h
  constructor
  · rw [strip, trimWith, hu]
    have hopen : Text.isBlank '\x7b' = false := by decide
    have hclose : Text.isBlank '\x7d' = false := by decide
    simp only [dropWhile_cons, hopen, Bool.false_eq_true, ↓reduceIte, reverse_cons, reverse_append,
      reverse_nil, nil_append, cons_append, hclose, reverse_reverse]
    rw [← hu, String.ofList_toList]
  · rintro rfl
    cases hu

theorem render_eq_ok {st : Json.Style} {v : Value} : Json.render st v = .ok s ↔ Json.write st v = .ok s := by
  unfold Json.render
  cases Json.write st v <;> simp [Except.mapError]

theorem read_line (h : Json.render {} (.map es) = .ok s)
    (hdepth : depth (.map es) ≤ levelLimit) : Json.read (strip s) = .ok (image (.map es)) := by
  have hwrite := render_eq_ok.mp h
  rw [(strip_rendered hwrite).1, Json.read, (Json.parse_write Json.blank_plain hwrite).1 hdepth]
  rfl

theorem isEmpty_line (h : Json.render {} (.map es) = .ok s) : (strip s).isEmpty = false := by
  obtain ⟨hstrip, hne⟩ := strip_rendered (render_eq_ok.mp h)
  rw [hstrip]
  simpa using hne

/-- What is found in a map that was read. -/
theorem sub_image_obj (hkeys : (fields.map (·.1)).Nodup) (k : String) :
    (image (.obj fields)).sub k = ((fields.lookup k).map image).getD .null := by
  rw [image_obj hkeys, sub, Value.getD, get?_obj, lookup_map]

def marked (kind : String) (fields : Fields) : Fields :=
  fields ++ [("record_type", .text kind)]

theorem not_mem_of_marked {kind : String} (hkeys : ((marked kind fields).map (·.1)).Nodup) :
    "record_type" ∉ fields.map (·.1) := by
  rw [marked, map_append, nodup_append] at hkeys
  exact fun hmem => hkeys.2.2 _ hmem "record_type" (by simp) rfl

theorem put_record_type (h : "record_type" ∉ fields.map (·.1)) :
    (obj fields).put "record_type" (.text kind) = .obj (marked kind fields) := by
  refine congrArg Value.map ?_
  rw [marked, map_append]
  induction fields with
  | nil => rfl
  | cons f fields ih =>
    simp only [map_cons, mem_cons, not_or] at h
    have hkey : isKey "record_type" (.text f.1) = false := by simpa [isKey] using Ne.symm h.1
    simp [putText, hkey, ih h.2]

/-- The mark does not make a record deeper. -/
theorem depth_marked (fields : Fields) : depth (.obj (marked kind fields)) = depth (.obj fields) := by
  simp only [obj, depth, marked, map_append]
  refine congrArg (· + 1) (eq_of_forall_ge_iff fun n => ?_)
  simp only [depthFields_le, forall_mem_append, forall_mem_map, forall_mem_singleton, depth]
  simp

theorem readLine_record {version : Value} {g' : Graph} (h : recordLine kind (.obj fields) = .ok s)
    (hkeys : ((marked kind fields).map (·.1)).Nodup) (hdepth : depth (.obj fields) ≤ levelLimit)
    (hread : readRecord g (.text kind) (.obj ((marked kind fields).map fun (k, v) => (k, image v))) = .ok g') :
    readLine version (hd, g) (s, k + 1) = .ok (hd, g') := by
  have hfields := not_mem_of_marked hkeys
  have hkind : recordKind (image (.obj (marked kind fields))) = .ok (.text kind) := by
    have hlookup : fields.lookup "record_type" = none := lookup_eq_none_iff.mpr fun f hf =>
      bne_iff_ne.mpr fun heq => hfields (heq ▸ mem_map_of_mem hf)
    rw [recordKind, sub_image_obj hkeys, marked, lookup_append, hlookup]
    rfl
  rw [← image_obj hkeys] at hread
  rw [recordLine, put_record_type kind hfields] at h
  rw [← depth_marked kind] at hdepth
  have himage : (image (.obj (marked kind fields))).isMap = true := by
    rw [image_obj hkeys]
    rfl
  have hline : Json.read (strip s) = .ok (image (.obj (marked kind fields))) := read_line h hdepth
  unfold readLine
  simp only [isEmpty_line h, Bool.false_eq_true, ↓reduceIte, hline, bind, Except.bind, himage, hkind, hread,
    Nat.add_eq_zero_iff, Nat.one_ne_zero, and_false, beq_iff_eq]
  rfl

/-- The records of a file, of each kind. -/
inductive Record where
  | node (n : Node)
  | edge (e : Edge)
  | symbol (x : Symbol)

namespace Record

def label : Record → String
  | node _ => "node"
  | edge _ => "edge"
  | symbol _ => "symbol"

def value : Record → Value
  | node n => n.value
  | edge e => e.value
  | symbol x => x.value

def line (r : Record) : Try String := recordLine r.label r.value

/-- What is read of records. -/
def graph (rs : List Record) : Graph where
  nodes := rs.filterMap fun r => match r with | node n => some n.stored | _ => none
  edges := rs.filterMap fun r => match r with | edge e => some e.stored | _ => none
  symbols := rs.filterMap fun r => match r with | symbol x => some x.stored | _ => none

theorem exists_fields (r : Record) : ∃ fields, r.value = .obj fields ∧ ((marked r.label fields).map (·.1)).Nodup
    ∧ ∀ rs, readRecord (graph rs) (.text r.label) (.obj ((marked r.label fields).map fun (k, v) => (k, image v)))
      = .ok (graph (rs ++ [r])) := by
  cases r <;> exact ⟨_, rfl, by simp [marked, label], fun rs => by simp [graph]; rfl⟩

end Record

def Graph.recorded (g : Graph) : List Record := g.nodes.map .node ++ g.edges.map .edge ++ g.symbols.map .symbol

theorem Graph.graph_recorded (g : Graph) : Record.graph g.recorded = g.stored := by
  simp [Record.graph, recorded, stored, filterMap_map, filterMap_eq_map']

theorem lines_eq (h : Header) (g : Graph) :
    lines h g = Json.render {} h.value :: g.recorded.map (·.line) := by
  simp [lines, recorded, Function.comp_def, Record.line, Record.label, Record.value]

section Header

variable {h : Header} {version : String} (hversion : h.version = .text version)

theorem Header.nodup_fields (h : Header) : (([("type", .text "meta"), ("version", h.version),
    ("timestamp", .int h.time), ("project_root", .text h.root), ("commit_hash", h.commit)]
    ++ if h.file.truthy then [("file_path", h.file)] else [] : Fields).map (·.1)).Nodup := by
  split <;> simp

include hversion in
theorem Header.sub_version : (image h.value).sub "version" = .text version := by
  rw [Header.value, sub_image_obj h.nodup_fields, hversion]
  rfl

include hversion in
theorem readHeader_own : readHeader (.text version) (.text "meta") (image h.value) = .ok (image h.value) := by
  have hself : (text version).same (.text version) = true := by simp [same]
  rw [readHeader, sub_version hversion, hself]
  rfl

include hversion in
theorem readHeader_other (hother : other ≠ version) :
    ∃ m, readHeader (.text other) (.text "meta") (image h.value) = .error (.invalid m) := by
  have hdiffers : (text version).same (.text other) = false := by simpa [same] using hother.symm
  rw [readHeader, sub_version hversion, hdiffers]
  exact ⟨_, rfl⟩

/-- The first line of a file is read as its header, which says itself what it is. -/
theorem readLine_header (hrender : Json.render {} h.value = .ok s) (hdepth : depth h.value ≤ levelLimit)
    (version : Value) (state : Option Value × Graph) : readLine version state (s, 0)
      = (readHeader version (.text "meta") (image h.value)).map fun r => (some r, state.2) := by
  obtain ⟨es, hes⟩ : ∃ es, h.value = .map es := ⟨_, rfl⟩
  have himage : (image h.value).isMap = true := by
    rw [hes, image]
    rfl
  rw [hes] at hrender hdepth
  have hread : Json.read (strip s) = .ok (image h.value) := hes ▸ read_line hrender hdepth
  have hkind : recordKind (image h.value) = .ok (.text "meta") := by
    have hstated : (image h.value).sub "record_type" = .null := by
      rw [Header.value, sub_image_obj h.nodup_fields]
      split <;> rfl
    have htype : (image h.value).sub "type" = .text "meta" := by
      rw [Header.value, sub_image_obj h.nodup_fields]
      rfl
    rw [recordKind, hstated, htype]
    rfl
  unfold readLine
  simp only [isEmpty_line hrender, Bool.false_eq_true, ↓reduceIte, hread, bind, Except.bind, himage, hkind,
    beq_self_eq_true]
  cases readHeader version (.text "meta") (image h.value) <;> rfl

end Header

/-! ## Files of lines -/

theorem linesSoFar_eq (h : linesSoFar ls = (l, none)) : ls = l.map .ok := by
  induction ls generalizing l with
  | nil =>
    cases h
    rfl
  | cons x ls ih =>
    cases x with
    | error e => cases h
    | ok s =>
      simp only [linesSoFar, Prod.mk.injEq] at h
      obtain ⟨rfl, h⟩ := h
      rw [map_cons, ← ih (Prod.ext rfl h)]

/-- The lines of records are read one after the other. -/
theorem foldlM_records {version : Value} {rs' : List Record} (rs : List Record)
    (hlines : l.map .ok = rs'.map (·.line)) (hdepth : ∀ r ∈ rs', depth r.value ≤ levelLimit)
    (k : Nat) : (l.zipIdx (k + 1)).foldlM (readLine version) (hd, Record.graph rs)
      = .ok (hd, Record.graph (rs ++ rs')) := by
  induction rs' generalizing l rs k with
  | nil =>
    rw [map_nil, map_eq_nil_iff] at hlines
    rw [hlines, append_nil]
    rfl
  | cons r rs' ih =>
    obtain ⟨s, l, rfl, hs, hlines⟩ := map_eq_cons_iff.mp hlines
    rw [forall_mem_cons] at hdepth
    obtain ⟨fields, hvalue, hkeys, hread⟩ := r.exists_fields
    have hs : recordLine r.label (.obj fields) = .ok s := hvalue ▸ hs.symm
    rw [hvalue] at hdepth
    have hrest := ih (rs ++ [r]) hlines hdepth.2 (k + 1)
    rw [append_assoc, singleton_append] at hrest
    rw [zipIdx_cons, foldlM_cons, readLine_record r.label hs hkeys hdepth.1 (hread rs)]
    exact hrest

def Graph.recordValues (g : Graph) : List Value :=
  g.nodes.map (·.value) ++ g.edges.map (·.value) ++ g.symbols.map (·.value)

theorem Graph.forall_recordValues {P : Value → Prop} : (∀ v ∈ g.recordValues, P v) ↔ ∀ r ∈ g.recorded, P r.value := by
  simp only [recordValues, recorded, forall_mem_append, forall_mem_map, Record.value]

/-- A graph has two levels more than its records. -/
theorem Graph.depth_le : depth g.value ≤ levelLimit + 2 ↔ ∀ v ∈ g.recordValues, depth v ≤ levelLimit := by
  have hall := @depthAll_le
  simp only [recordValues, forall_mem_append, ← hall]
  simp only [value, obj, map_cons, map_nil, depth, depthFields]
  omega

theorem read_text (h : '\r' ∉ s.toList) : (Files.Content.text s).read = .ok s := by
  have hcontains : s.toList.contains '\r' = false := by simpa using h
  simp only [Files.Content.read, Files.Content.decode, bind, Except.bind, hcontains]
  rfl

theorem toList_lines (l : List String) :
    (String.join (l.map (· ++ "\n"))).toList = l.flatMap fun s => s.toList ++ ['\n'] := by
  rw [String.toList_join, flatMap_map]
  simp only [String.toList_append]
  rfl

theorem split_lines (h : ∀ s ∈ l, '\n' ∉ s.toList) : split (String.join (l.map (· ++ "\n"))) "\n" = l ++ [""] := by
  rw [Text.split_eq (a := '\n') rfl, toList_lines]
  induction l with
  | nil => rfl
  | cons s l ih =>
    have hs := h s (by simp)
    rw [flatMap_cons, append_assoc, singleton_append, splitOn_append_cons_self_of_not_mem hs,
      map_cons, ih fun t ht => h t (by simp [ht])]
    simp

/-- All lines of a file are on one line each. -/
theorem toNat_of_mem_lines (hs : .ok s ∈ lines h g) : ∀ c ∈ s.toList, 0x20 ≤ c.toNat := by
  have hrendered : ∃ v, Json.render {} v = .ok s := by
    rw [lines_eq, mem_cons, mem_map] at hs
    rcases hs with hs | ⟨r, -, hs⟩
    · exact ⟨_, hs.symm⟩
    · exact ⟨_, hs⟩
  obtain ⟨v, hv⟩ := hrendered
  exact allOf_write keeps_plain (render_eq_ok.mp hv)

abbrev textOf (l : List String) : Files.Content := .text (String.join (l.map (· ++ "\n")))

theorem readLine_deep (h : Json.render {} (.map es) = .ok s)
    (hdepth : levelLimit < depth (.map es)) (version : Value) (state : Option Value × Graph) (k : Nat) :
    ∃ e, readLine version state (s, k) = .error e := by
  have hwrite := render_eq_ok.mp h
  obtain ⟨inMap, hparse⟩ := (Json.parse_write Json.blank_plain hwrite).2 hdepth
  have hread : Json.read (strip s) = .error (Json.Flaw.tooDeep inMap).fault := by
    rw [(strip_rendered hwrite).1, Json.read, hparse]
    rfl
  unfold readLine
  simp only [isEmpty_line h, Bool.false_eq_true, ↓reduceIte, hread, bind, Except.bind]
  exact ⟨_, rfl⟩

/-- A fold that comes to an end has passed every element. -/
theorem foldlM_mem {ε : Type} {f : β → α → Except ε β} {l : List α} {x y : β} (h : l.foldlM f x = .ok y)
    {a : α} (ha : a ∈ l) : ∃ x' y', f x' a = .ok y' := by
  induction l generalizing x with
  | nil => cases ha
  | cons b l ih =>
    rw [foldlM_cons] at h
    obtain ⟨z, hz, h⟩ := bind_eq_ok.mp h
    rcases mem_cons.mp ha with rfl | ha
    · exact ⟨x, z, hz⟩
    · exact ih h ha

section

variable (hl : linesSoFar (lines h g) = (l, none))
include hl

/-- The lines of a file that was written for a graph are found in it. -/
theorem linesSoFar_textOf : (textOf l).linesSoFar = (l, none) := by
  have hchars : ∀ s ∈ l, ∀ c ∈ s.toList, 0x20 ≤ c.toNat := by
    intro s hs
    apply toNat_of_mem_lines
    rw [linesSoFar_eq hl]
    exact mem_map_of_mem hs
  have hreturn : '\r' ∉ (String.join (l.map (· ++ "\n"))).toList := by
    rw [toList_lines]
    intro hmem
    obtain ⟨s, hs, hmem⟩ := mem_flatMap.mp hmem
    rcases mem_append.mp hmem with hmem | hmem
    · exact absurd (hchars s hs _ hmem) (by decide)
    · exact absurd hmem (by decide)
  have hsplit := split_lines fun s hs hn => absurd (hchars s hs _ hn) (by decide)
  simp only [textOf, Files.Content.linesSoFar, Files.Content.readLines, read_text hreturn, bind, Except.bind, hsplit]
  simp [pure, Except.pure, Except.toOption]

variable {version : String} (hversion : h.version = .text version) (hheader : depth h.value ≤ levelLimit)
include hversion hheader

/-- The lines that were written for a graph are read as it. -/
theorem foldlM_lines (hdepth : depth g.value ≤ levelLimit + 2) :
    l.zipIdx.foldlM (readLine (.text version)) (none, {}) = .ok (some (image h.value), g.stored) := by
  have hlines := linesSoFar_eq hl
  rw [lines_eq] at hlines
  obtain ⟨s, rest, rfl, hs, hlines⟩ := map_eq_cons_iff.mp hlines.symm
  rw [zipIdx_cons, foldlM_cons, readLine_header hs.symm hheader, readHeader_own hversion, ← graph_recorded]
  exact foldlM_records [] hlines (forall_recordValues.mp (depth_le.mp hdepth)) 0

/-- A file that was written for a graph is read as it. -/
theorem readLines_lines (hdepth : depth g.value ≤ levelLimit + 2) :
    readLines (.text version) (textOf l) = .ok (g.stored, image h.value) := by
  rw [readLines, linesSoFar_textOf hl]
  simp only [foldlM_lines hl hversion hheader hdepth, bind, Except.bind]
  rfl

/-- A reader of another version refuses the file at its first line. -/
theorem readLines_other (hother : other ≠ version) :
    ∃ m, readLines (.text other) (textOf l) = .error (.invalid m) := by
  have hlines := linesSoFar_eq hl
  rw [lines_eq] at hlines
  obtain ⟨s, rest, rfl, hs, -⟩ := map_eq_cons_iff.mp hlines.symm
  obtain ⟨m, hm⟩ := readHeader_other hversion hother
  refine ⟨m, ?_⟩
  rw [readLines, linesSoFar_textOf hl]
  simp only [zipIdx_cons, foldlM_cons, readLine_header hs.symm hheader, hm]
  rfl

/-- What can be read of the file of a graph is the graph: one with too many levels cannot be read at all. -/
theorem eq_of_readLines {x : Graph × Value} (hread : readLines (.text version) (textOf l) = .ok x) :
    x = (g.stored, image h.value) := by
  have hdepth : ∀ v ∈ g.recordValues, depth v ≤ levelLimit := by
    rw [forall_recordValues]
    intro r hr
    by_contra hdeep
    have hmem : r.line ∈ lines h g := by
      rw [lines_eq]
      exact mem_cons_of_mem _ (mem_map_of_mem hr)
    rw [linesSoFar_eq hl] at hmem
    obtain ⟨s, hs, hline⟩ := mem_map.mp hmem
    rw [readLines, linesSoFar_textOf hl] at hread
    obtain ⟨y, hfold, -⟩ := bind_eq_ok.mp hread
    obtain ⟨k, hk⟩ := mem_iff_getElem?.mp hs
    obtain ⟨x', y', hok⟩ := foldlM_mem hfold (mem_zipIdx_iff_getElem?.mpr hk : (s, k) ∈ l.zipIdx)
    obtain ⟨fields, hvalue, hkeys, -⟩ := r.exists_fields
    rw [hvalue, ← depth_marked r.label] at hdeep
    rw [Record.line, hvalue, recordLine, put_record_type r.label (not_mem_of_marked hkeys)] at hline
    obtain ⟨e, he⟩ := readLine_deep hline.symm (not_le.mp hdeep) (.text version) x' k
    rw [he] at hok
    cases hok
  rw [readLines_lines hl hversion hheader (depth_le.mpr hdepth)] at hread
  exact (Except.ok.inj hread).symm

end

/-! ## Graphs of documents -/

theorem linesSoFar_ok (h : ∀ x ∈ ls, ∃ s, x = .ok s) : ∃ l, linesSoFar ls = (l, none) := by
  induction ls with
  | nil => exact ⟨[], rfl⟩
  | cons x ls ih =>
    obtain ⟨s, rfl⟩ := h x (by simp)
    obtain ⟨l, hl⟩ := ih fun y hy => h y (by simp [hy])
    exact ⟨s :: l, by rw [linesSoFar, hl]⟩

theorem recordLine_ok {r : Record} (h : isDocument r.value = true) : ∃ s, r.line = .ok s := by
  obtain ⟨fields, hvalue, hkeys, -⟩ := r.exists_fields
  rw [hvalue] at h
  obtain ⟨fields', heq, -, hkept⟩ := kept_of_areFields (fields.map fun (k, v) => (.text k, v))
    (by simpa only [obj, isDocument] using h)
  obtain rfl : fields = fields' := map_injective_iff.mpr (by rintro ⟨⟩ ⟨⟩ h; simpa using h) heq
  rw [Record.line, hvalue, recordLine, put_record_type r.label (not_mem_of_marked hkeys)]
  refine (writable_obj ?_).render {}
  exact forall_mem_append.mpr ⟨fun f hf => (hkept f hf).writable, by simp [writable_text]⟩

/-- A graph of documents can be written in full. -/
theorem lines_ok (hheader : isDocument h.value = true)
    (hgraph : ∀ v ∈ g.recordValues, isDocument v = true) : ∃ l, linesSoFar (lines h g) = (l, none) := by
  apply linesSoFar_ok
  rw [lines_eq, forall_mem_cons, forall_mem_map]
  exact ⟨(kept_of_isDocument _ hheader).writable.render {},
    fun r hr => recordLine_ok (forall_recordValues.mp hgraph r hr)⟩

theorem Graph.stored_documents (h : ∀ v ∈ g.recordValues, isDocument v = true) :
    g.stored.nodes.map (·.value) = g.nodes.map (·.value) ∧ g.stored.edges.map (·.value) = g.edges.map (·.value)
      ∧ g.stored.symbols.map (·.value) = g.symbols.map (·.value) := by
  simp only [recordValues, forall_mem_append, forall_mem_map] at h
  obtain ⟨⟨hnodes, hedges⟩, hsymbols⟩ := h
  simp only [stored, map_map]
  refine ⟨map_congr_left fun n hn => ?_, map_congr_left fun e he => ?_, map_congr_left fun x hx => ?_⟩
  · exact n.value_stored.trans (kept_of_isDocument _ (hnodes n hn)).image_eq
  · exact e.value_stored.trans (kept_of_isDocument _ (hedges e he)).image_eq
  · exact x.value_stored.trans (kept_of_isDocument _ (hsymbols x hx)).image_eq

/-- What a header says of the version, the commit and the file. -/
theorem Header.eq_of_ok {version known : Value}
    (hof : of w version known = .ok h) : h.version = version ∧ h.file = known.sub "file_path"
      ∧ (h.commit = known.sub "commit_hash" ∨ ∃ c, h.commit = (optText c).orElse (.text "unknown")) := by
  have hend : ∀ {r c t}, (do
      let time ← t
      pure ⟨version, time, r, c, known.sub "file_path"⟩ : Try Header) = .ok h →
      h.version = version ∧ h.file = known.sub "file_path" ∧ h.commit = c := by
    intro r c t hof
    obtain ⟨time, -, hof⟩ := bind_eq_ok.mp hof
    cases hof
    exact ⟨rfl, rfl, rfl⟩
  unfold of at hof
  simp only [] at hof
  split at hof
  · obtain ⟨r, -, hof⟩ := bind_eq_ok.mp hof
    split at hof
    · obtain ⟨c, hc, hof⟩ := bind_eq_ok.mp hof
      cases hc
      obtain ⟨hversion, hfile, hcommit⟩ := hend hof
      exact ⟨hversion, hfile, .inl hcommit⟩
    · obtain ⟨c, hc, hof⟩ := bind_eq_ok.mp hof
      obtain ⟨s, -, rfl⟩ := map_eq_ok.mp hc
      obtain ⟨hversion, hfile, hcommit⟩ := hend hof
      exact ⟨hversion, hfile, .inr ⟨s, hcommit⟩⟩
  · cases hof

theorem read_of_file? {path : String} {c : Files.Content} (h : w.file? path = some c)
    (version : Value) : read w version path = readLines version c := by
  have hcontent : w.content path = .ok c := toOption_eq_some.mp h
  rw [read, Files.Workspace.has_of_file? h, hcontent]
  rfl

/-- A graph of documents is written unless its file cannot be placed. What was written is read back by a reader of
the same version: the records of each kind in their order, whatever kind an edge says it is of, and the header. A
reader of another version refuses the file. -/
theorem read_write {w : Files.Workspace} {version path : String} {g : Graph} {known : Value} {h : Header}
    (hw : w.Rooted) (hpath : path ≠ "") (hof : of w (.text version) known = .ok h)
    (hheader : isDocument h.value = true ∧ depth h.value ≤ levelLimit)
    (hgraph : ∀ v ∈ g.recordValues, isDocument v = true ∧ depth v ≤ levelLimit) :
    (∀ e w', write w (.text version) g path known = (.error e, w') → ∃ c, w.place path c = .error e)
    ∧ ∀ h' w', write w (.text version) g path known = (.ok h', w') → h' = h
      ∧ (∃ g', read w' (.text version) path = .ok (g', h.value)
        ∧ g'.nodes.map (·.value) = g.nodes.map (·.value) ∧ g'.edges.map (·.value) = g.edges.map (·.value)
        ∧ g'.symbols.map (·.value) = g.symbols.map (·.value))
      ∧ ∀ other, other ≠ version → ∃ m, read w' (.text other) path = .error (.invalid m) := by
  have hdocuments : ∀ v ∈ g.recordValues, isDocument v = true := fun v hv => (hgraph v hv).1
  have hdepth : depth g.value ≤ levelLimit + 2 := Graph.depth_le.mpr fun v hv => (hgraph v hv).2
  have hversion : h.version = .text version := (eq_of_ok hof).1
  have himage : image h.value = h.value := (kept_of_isDocument _ hheader.1).image_eq
  obtain ⟨l, hl⟩ := lines_ok hheader.1 hdocuments
  cases hplace : w.place path (textOf l) with
  | error e =>
    have hwrite : write w (.text version) g path known = (.error e, w) := by simp only [write, hof, hl, hplace]
    rw [hwrite]
    constructor
    · rintro e' w' heq
      cases heq
      exact ⟨_, hplace⟩
    · rintro h' w' heq
      cases heq
  | ok w₁ =>
    have hwrite : write w (.text version) g path known = (.ok h, w₁) := by simp only [write, hof, hl, hplace]
    rw [hwrite]
    constructor
    · rintro e' w' heq
      cases heq
    · rintro h' w' heq
      cases heq
      have hfile : w₁.file? path = some (textOf l) := by
        rw [Files.Workspace.file?_place hw hplace, if_pos ⟨hpath, rfl⟩]
      refine ⟨rfl, ⟨g.stored, ?_, Graph.stored_documents hdocuments⟩, fun other hother => ?_⟩
      · rw [read_of_file? hfile, readLines_lines hl hversion hheader.2 hdepth, himage]
      · rw [read_of_file? hfile]
        exact readLines_other hl hversion hheader.2 hother

/-- A node that says to be something else, and edges of all the kinds that records have. -/
def mislabelled : Graph :=
  { nodes := [{ id := .text "a", kind := .text "edge", place := .known (.text "m.py") ⟨"m.py", 1, 0, 1, 5⟩
                attrs := .obj [("type", .text "meta"), ("n", .list [.int 1, .null])] }]
    edges := ["meta", "node", "edge", "symbol"].map fun k => ⟨.text "a", .text "a", .text k, .null⟩
    symbols := [{ name := .text "x", kind := .text "var", container := .text "s", defs := .texts ["a"] }] }

theorem mislabelled_read_back : ∃ h w',
    write {} (.text "2") mislabelled "/g.jsonl" (.obj [("project_root", .text "/p"), ("commit_hash", .text "c"),
      ("timestamp", .int 5)]) = (.ok h, w')
    ∧ (∃ g', read w' (.text "2") "/g.jsonl" = .ok (g', h.value)
      ∧ g'.nodes.map (·.value) = mislabelled.nodes.map (·.value)
      ∧ g'.edges.map (·.value) = mislabelled.edges.map (·.value)
      ∧ g'.symbols.map (·.value) = mislabelled.symbols.map (·.value))
    ∧ ∃ m, read w' (.text "1.0") "/g.jsonl" = .error (.invalid m) := by
  have hof : of {} (.text "2") (.obj [("project_root", .text "/p"), ("commit_hash", .text "c"),
      ("timestamp", .int 5)]) = .ok ⟨.text "2", 5, "/p", .text "c", .null⟩ := by rfl
  have hplaced : ∀ c, ∃ w', ({} : Files.Workspace).place "/g.jsonl" c = .ok w' := fun c => ⟨_, rfl⟩
  have hthere := @read_write _ _ "/g.jsonl" mislabelled _ _ (by unfold Files.Workspace.Rooted; decide) (by decide) hof
    (by decide) (by decide)
  generalize write {} (.text "2") mislabelled "/g.jsonl" _ = result at hthere
  obtain ⟨r, w'⟩ := result
  cases r with
  | error e =>
    obtain ⟨c, hc⟩ := hthere.1 e w' rfl
    obtain ⟨w'', hplace⟩ := hplaced c
    rw [hplace] at hc
    cases hc
  | ok h =>
    obtain ⟨rfl, hread, hother⟩ := hthere.2 h w' rfl
    exact ⟨_, w', rfl, hread, hother "1.0" (by decide)⟩

end SecScan.Store
