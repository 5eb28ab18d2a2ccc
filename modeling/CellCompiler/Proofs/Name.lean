import CellCompiler.Generate.Function
import CellCompiler.Proofs.Generate.Rules
import CellCompiler.Proofs.Layout
import CellCompiler.Proofs.Literal

/-!
# Emitted names do not collide

A name can be read back: it is the list of the words between the marks in it, and no identifier of
the source has a mark. So functions that are emitted for different reasons have different names, and
different paths are different variables.

* `Name.Origin` is what a function can be emitted for, `Name.Origin.name` its name;
* `Name.Spelled` tells the words of that name, and `Name.spelled_of_name` puts them together;
* `emitted_names_apart` is the main result.
-/

namespace CellCompiler

open Generate

namespace Name

/-! ### What functions are emitted for -/

/-- The codecs of a record. -/
inductive Codec where
  | writer
  | writerCell
  | writerOpt
  | writerCellOpt
  | reader
  | readerNotMut
  | readerBounced
  | readerOpt
  | readerCellOpt
  deriving DecidableEq

/-- The name of a codec of a record. -/
def Codec.name : Codec → String → String
  | writer => Name.writer
  | writerCell => Name.writerCell
  | writerOpt => Name.writerOpt
  | writerCellOpt => Name.writerCellOpt
  | reader => Name.reader
  | readerNotMut => Name.readerNotMut
  | readerBounced => Name.readerBounced
  | readerOpt => Name.readerOpt
  | readerCellOpt => Name.readerCellOpt

/-- The functions of a type that are called the same for every type. -/
inductive Part where
  | codec (c : Codec)
  | tensorCast
  | notNull
  | asOptional
  | toTuple
  | toOptTuple
  | fromTuple
  | fromOptTuple
  | toExternal
  | toOptExternal
  | fromExternal
  | fromOptExternal
  | contractInit
  | initChild
  | contractLoad
  | contractStore
  | routerInternal
  | routerExternal
  deriving DecidableEq

/-- The name of a function of a type. -/
def Part.name : Part → String → String
  | codec c => c.name
  | tensorCast => Name.tensorCast
  | notNull => Name.notNull
  | asOptional => Name.asOptional
  | toTuple => Name.toTuple
  | toOptTuple => Name.toOptTuple
  | fromTuple => Name.fromTuple
  | fromOptTuple => Name.fromOptTuple
  | toExternal => Name.toExternal
  | toOptExternal => Name.toOptExternal
  | fromExternal => Name.fromExternal
  | fromOptExternal => Name.fromOptExternal
  | contractInit => Name.contractInit
  | initChild => Name.initChild
  | contractLoad => Name.contractLoad
  | contractStore => Name.contractStore
  | routerInternal => Name.routerInternal
  | routerExternal => Name.routerExternal

/-- What a function that belongs to a type is emitted for. -/
inductive Member where
  | part (p : Part)
  | getter (field : String)
  | method (name : String)
  /-- A message handler of a contract. -/
  | receiver (selector : ReceiverSelector)
  deriving DecidableEq

/-- The name of a function that belongs to a type. -/
def Member.name (type : String) : Member → Except Cell.Error String
  | part p => .ok (p.name type)
  | getter field => .ok (Name.getter type field)
  | method name => .ok (Name.method type name)
  | receiver selector => receiverName type selector

/-- What a function is emitted for. -/
inductive Origin where
  | member (type : String) (m : Member)
  /-- A codec of the arguments that a contract is deployed with. -/
  | initCodec (contract : String) (c : Codec)
  /-- A method, run on a value that is not kept. -/
  | notMut (type name : String)
  | globalFunction (name : String)
  | getterMethod (name : String)
  | recvInternal
  | recvExternal
  deriving DecidableEq

namespace Origin

/-- The name of an emitted function. -/
def name : Origin → Except Cell.Error String
  | member type m => m.name type
  | initCodec contract c => .ok (c.name (Name.initArgs contract))
  | notMut type name => .ok (Name.notMut (Name.method type name))
  | globalFunction name => .ok (Name.globalFunction name)
  | getterMethod name => .ok (Name.getterMethod name)
  | recvInternal => .ok Name.recvInternal
  | recvExternal => .ok Name.recvExternal

/-- The types that a handler mentions. -/
def selectorIdentifiers : ReceiverSelector → List String
  | .internal (.binary typeName) | .external (.binary typeName) | .bounceBinary typeName _ => [typeName]
  | _ => []

/-- The identifiers of the source that a name is made of. -/
def identifiers : Origin → List String
  | member type (.part _) => [type]
  | member type (.getter field) => [type, field]
  | member type (.method name) => [type, name]
  | member type (.receiver selector) => type :: selectorIdentifiers selector
  | initCodec contract _ => [contract]
  | notMut type name => [type, name]
  | globalFunction name | getterMethod name => [name]
  | recvInternal | recvExternal => []

/-- The text that a handler is for. -/
def text? : Origin → Option String
  | member _ (.receiver (.internal (.comment text))) => some text
  | member _ (.receiver (.external (.comment text))) => some text
  | _ => none

/-- What is left if handlers of whole and of cut messages are not told apart. -/
def uncut : Origin → Origin
  | member type (.receiver (.bounceBinary typeName _)) =>
    member type (.receiver (.bounceBinary typeName false))
  | other => other

/-- No identifier in the name has a mark in it. -/
def IsPlain (o : Origin) : Prop := ∀ x ∈ o.identifiers, '$' ∉ x.toList

end Origin

/-! ### Words of names -/

/-- What follows the type in the name of a codec. -/
def Codec.suffix : Codec → String
  | writer => "store"
  | writerCell => "store_cell"
  | writerOpt => "store_opt"
  | writerCellOpt => "store_cell_opt"
  | reader => "load"
  | readerNotMut => "load_not_mut"
  | readerBounced => "load_bounced"
  | readerOpt => "load_opt"
  | readerCellOpt => "load_cell_opt"

/-- What follows the type in the name of a function. -/
def Part.suffix : Part → String
  | codec c => c.suffix
  | tensorCast => "tensor_cast"
  | notNull => "not_null"
  | asOptional => "as_optional"
  | toTuple => "to_tuple"
  | toOptTuple => "to_opt_tuple"
  | fromTuple => "from_tuple"
  | fromOptTuple => "from_opt_tuple"
  | toExternal => "to_external"
  | toOptExternal => "to_opt_external"
  | fromExternal => "from_external"
  | fromOptExternal => "from_opt_external"
  | contractInit => "contract_init"
  | initChild => "init_child"
  | contractLoad => "contract_load"
  | contractStore => "contract_store"
  | routerInternal => "contract_router_internal"
  | routerExternal => "contract_router_external"

theorem Codec.name_eq (c : Codec) (type : String) : c.name type = ofType type c.suffix := by
  cases c <;> rfl

theorem Part.name_eq (p : Part) (type : String) : p.name type = ofType type p.suffix := by
  cases p with
  | codec c => exact c.name_eq type
  | _ => rfl

/-- All functions of a type that are called the same for every type. -/
def Part.all : List Part :=
  [codec .writer, codec .writerCell, codec .writerOpt, codec .writerCellOpt, codec .reader,
    codec .readerNotMut, codec .readerBounced, codec .readerOpt, codec .readerCellOpt, tensorCast,
    notNull, asOptional, toTuple, toOptTuple, fromTuple, fromOptTuple, toExternal, toOptExternal,
    fromExternal, fromOptExternal, contractInit, initChild, contractLoad, contractStore,
    routerInternal, routerExternal]

theorem Part.mem_all (p : Part) : p ∈ all := by
  cases p with
  | codec c => cases c <;> decide
  | _ => decide

theorem Part.suffix_injective : Function.Injective suffix := by
  have hnodup : (all.map fun p => p.suffix.toList).Nodup := by decide +kernel
  intro p q h
  exact List.inj_on_of_nodup_map hnodup p.mem_all q.mem_all (congrArg String.toList h)

/-- The words that begin what follows the type in the names of getters, methods and handlers. -/
inductive Opening where
  | getter
  | method
  | internal
  | external
  | bounced
  deriving DecidableEq

/-- The spelling of the beginning. -/
def Opening.word : Opening → String
  | getter => "get_"
  | method => "fun_"
  | internal => "internal_"
  | external => "external_"
  | bounced => "bounced_"

/-- No beginning is the beginning of another one. -/
theorem Opening.eq_of_isPrefix {a b : Opening} (h : a.word.toList <+: b.word.toList) : a = b := by
  revert h
  cases a <;> cases b <;> decide

/-- No function that is called the same for every type is called like a getter, a method or a
handler. -/
theorem Opening.not_isPrefix_suffix (o : Opening) (p : Part) :
    ¬ o.word.toList <+: p.suffix.toList := by
  have hall : ∀ o ∈ [getter, method, internal, external, bounced], ∀ p ∈ Part.all,
      ¬ o.word.toList <+: p.suffix.toList := by decide +kernel
  exact hall o (by cases o <;> decide) p p.mem_all

/-! ### Texts in names -/

/-- The hash of a cell tells it apart from another one. -/
def TellsApart (c c' : Cell) : Prop := c.hash = c'.hash → c = c'

theorem hashHex_ne_fallback (c : Cell) : c.hashHex ≠ "fallback" := by
  intro h
  have hlength := congrArg (·.toList.length) h
  cases c with
  | mk bits refs => simp [Cell.hashHex, Hex.length_encode, Cell.hash] at hlength

/-- The labels of messages. -/
inductive Labelled : MessageSelector → String → Prop where
  | binary (typeName : String) : Labelled (.binary typeName) ("binary_" ++ typeName)
  | empty : Labelled .empty "empty"
  | comment {text : String} {c : Cell} : commentCell text = .ok c →
      Labelled (.comment text) ("comment_" ++ c.hashHex)
  | commentFallback : Labelled .commentFallback "comment_fallback"
  | fallback : Labelled .fallback "fallback"

theorem labelled_of_label {m : MessageSelector} {label : String} (h : m.label = .ok label) :
    Labelled m label := by
  cases m with
  | binary typeName => exact Except.ok.inj h ▸ .binary typeName
  | empty => exact Except.ok.inj h ▸ .empty
  | comment text =>
    obtain ⟨c, hc, hlabel⟩ := Except.bind_eq_ok.1 h
    exact Except.ok.inj hlabel ▸ .comment hc
  | commentFallback => exact Except.ok.inj h ▸ .commentFallback
  | fallback => exact Except.ok.inj h ▸ .fallback

/-- Different messages have different labels, given that hashes tell their texts apart. -/
theorem Labelled.injective {a b : MessageSelector} {label : String} (ha : Labelled a label)
    (hb : Labelled b label) (hapart : ∀ s t c c', a = .comment s → b = .comment t →
      commentCell s = .ok c → commentCell t = .ok c' → TellsApart c c') : a = b := by
  generalize hlabel : label = label' at hb
  have hhead : label.toList.head? = label'.toList.head? := by rw [hlabel]
  cases ha <;> cases hb
  case binary.binary => rw [(String.append_right_inj _).1 hlabel]
  case comment.comment s c hc t c' hc' =>
    have hhash : c.hash = c'.hash := Hex.encode_injective ((String.append_right_inj _).1 hlabel)
    obtain rfl := hapart s t c c' rfl rfl hc hc' hhash
    rw [commentCell_injective hc hc']
  case comment.commentFallback c _ =>
    have hhash : "comment_" ++ c.hashHex = "comment_" ++ "fallback" := hlabel
    exact absurd ((String.append_right_inj _).1 hhash) (hashHex_ne_fallback c)
  case commentFallback.comment c _ =>
    have hhash : "comment_" ++ "fallback" = "comment_" ++ c.hashHex := hlabel
    exact absurd ((String.append_right_inj _).1 hhash).symm (hashHex_ne_fallback c)
  -- all others begin with different letters
  all_goals simp at hhead ⊢

/-! ### Names in words -/

/-- What follows the type in the name of a getter, a method or a handler. -/
inductive Opens : Member → Opening → String → Prop where
  | getter (field : String) : Opens (.getter field) .getter field
  | method (name : String) : Opens (.method name) .method name
  | internal {m : MessageSelector} {label : String} : Labelled m label →
      Opens (.receiver (.internal m)) .internal label
  | external {m : MessageSelector} {label : String} : Labelled m label →
      Opens (.receiver (.external m)) .external label
  | bounceBinary (typeName : String) (bounced : Bool) :
      Opens (.receiver (.bounceBinary typeName bounced)) .bounced ("binary_" ++ typeName)
  | bounceFallback : Opens (.receiver .bounceFallback) .bounced "fallback"

/-- What follows the type in the name of a function. -/
inductive Follows : Member → String → Prop where
  | part (p : Part) : Follows (.part p) p.suffix
  | opened {m : Member} {o : Opening} {rest : String} : Opens m o rest → Follows m (o.word ++ rest)

theorem follows_of_name {m : Member} {type name : String} (h : m.name type = .ok name) :
    ∃ suffix, Follows m suffix ∧ name = ofType type suffix := by
  cases m with
  | part p => exact ⟨_, .part p, (Except.ok.inj h).symm.trans (p.name_eq type)⟩
  | getter field => exact ⟨_, .opened (.getter field), (Except.ok.inj h).symm⟩
  | method name => exact ⟨_, .opened (.method name), (Except.ok.inj h).symm⟩
  | receiver selector =>
    cases selector with
    | internal m =>
      obtain ⟨label, hlabel, hname⟩ := Except.bind_eq_ok.1 h
      refine ⟨_, .opened (.internal (labelled_of_label hlabel)), (Except.ok.inj hname).symm.trans ?_⟩
      simp [receiver, Opening.word]
    | external m =>
      obtain ⟨label, hlabel, hname⟩ := Except.bind_eq_ok.1 h
      refine ⟨_, .opened (.external (labelled_of_label hlabel)), (Except.ok.inj hname).symm.trans ?_⟩
      simp [receiver, Opening.word]
    | bounceBinary typeName bounced =>
      refine ⟨_, .opened (.bounceBinary typeName bounced), (Except.ok.inj h).symm.trans ?_⟩
      simp [receiver, Opening.word]
    | bounceFallback => exact ⟨_, .opened .bounceFallback, (Except.ok.inj h).symm⟩

/-- The words of a name: what is before, between and after the marks. -/
inductive Spelled : Origin → List (List Char) → Prop where
  | member {type suffix : String} {m : Member} : Follows m suffix →
      Spelled (.member type m) [[], type.toList, '_' :: suffix.toList]
  | initCodec (contract : String) (c : Codec) :
      Spelled (.initCodec contract c) [[], contract.toList, "init".toList, '_' :: c.suffix.toList]
  | notMut (type name : String) :
      Spelled (.notMut type name)
        [[], type.toList, "_fun_".toList ++ name.toList, "not_mut".toList]
  | globalFunction (name : String) :
      Spelled (.globalFunction name) [[], "global_".toList ++ name.toList]
  | getterMethod (name : String) : Spelled (.getterMethod name) ['%' :: name.toList]
  | recvInternal : Spelled .recvInternal [Name.recvInternal.toList]
  | recvExternal : Spelled .recvExternal [Name.recvExternal.toList]

theorem spelled_of_name {o : Origin} {name : String} (h : o.name = .ok name) :
    ∃ words, Spelled o words ∧ name.toList = ['$'].intercalate words := by
  cases o with
  | member type m =>
    obtain ⟨suffix, hsuffix, rfl⟩ := follows_of_name h
    exact ⟨_, .member hsuffix, by simp [ofType, List.intercalate]⟩
  | initCodec contract c =>
    obtain rfl := Except.ok.inj h
    exact ⟨_, .initCodec contract c, by simp [c.name_eq, ofType, initArgs, List.intercalate]⟩
  | notMut type name =>
    obtain rfl := Except.ok.inj h
    exact ⟨_, .notMut type name, by simp [Name.notMut, Name.method, ofType, List.intercalate]⟩
  | globalFunction name =>
    obtain rfl := Except.ok.inj h
    exact ⟨_, .globalFunction name, by simp [Name.globalFunction, List.intercalate]⟩
  | getterMethod name =>
    obtain rfl := Except.ok.inj h
    exact ⟨_, .getterMethod name, by simp [Name.getterMethod, List.intercalate]⟩
  | recvInternal => exact ⟨_, .recvInternal, by simp [← Except.ok.inj h, List.intercalate]⟩
  | recvExternal => exact ⟨_, .recvExternal, by simp [← Except.ok.inj h, List.intercalate]⟩

/-! ### No marks in words -/

theorem Codec.mark_not_mem_suffix (c : Codec) : '$' ∉ c.suffix.toList := by
  cases c <;> decide

theorem Part.mark_not_mem_suffix (p : Part) : '$' ∉ p.suffix.toList := by
  cases p with
  | codec c => exact c.mark_not_mem_suffix
  | _ => decide

theorem Opening.mark_not_mem_word (o : Opening) : '$' ∉ o.word.toList := by
  cases o <;> decide

theorem Labelled.mark_not_mem {m : MessageSelector} {label : String} (h : Labelled m label)
    (hm : ∀ typeName, m = .binary typeName → '$' ∉ typeName.toList) : '$' ∉ label.toList := by
  cases h with
  | binary typeName => simp [hm typeName rfl]
  | @comment text c hc => simpa [Cell.hashHex] using Hex.mark_not_mem_encode c.hash
  | empty | commentFallback | fallback => decide

theorem Opens.mark_not_mem {m : Member} {o : Opening} {rest type : String} (h : Opens m o rest)
    (hplain : (Origin.member type m).IsPlain) : '$' ∉ rest.toList := by
  have hmem : ∀ x ∈ (Origin.member type m).identifiers, '$' ∉ x.toList := hplain
  cases h with
  | getter => exact hmem rest (by simp [Origin.identifiers])
  | method => exact hmem rest (by simp [Origin.identifiers])
  | internal hlabel =>
    refine hlabel.mark_not_mem ?_
    rintro typeName rfl
    exact hmem typeName (by simp [Origin.identifiers, Origin.selectorIdentifiers])
  | external hlabel =>
    refine hlabel.mark_not_mem ?_
    rintro typeName rfl
    exact hmem typeName (by simp [Origin.identifiers, Origin.selectorIdentifiers])
  | bounceBinary typeName bounced =>
    simp [hmem typeName (by simp [Origin.identifiers, Origin.selectorIdentifiers])]
  | bounceFallback => decide

theorem Origin.IsPlain.type {type : String} {m : Member} (h : (Origin.member type m).IsPlain) :
    '$' ∉ type.toList := by
  refine h type ?_
  cases m <;> simp [Origin.identifiers]

/-- No word of a name has a mark in it. -/
theorem Spelled.mark_not_mem {o : Origin} {words : List (List Char)} (h : Spelled o words)
    (hplain : o.IsPlain) : ∀ w ∈ words, '$' ∉ w := by
  cases h with
  | @member type suffix m hsuffix =>
    have hlast : '$' ∉ suffix.toList := by
      cases hsuffix with
      | part p => exact p.mark_not_mem_suffix
      | @opened m o rest hopens => simp [o.mark_not_mem_word, hopens.mark_not_mem hplain]
    simp [hplain.type, hlast]
  | initCodec contract c =>
    have hcontract : '$' ∉ contract.toList := hplain contract (by simp [Origin.identifiers])
    simp [hcontract, c.mark_not_mem_suffix]
  | notMut type name =>
    have htype : '$' ∉ type.toList := hplain type (by simp [Origin.identifiers])
    have hname : '$' ∉ name.toList := hplain name (by simp [Origin.identifiers])
    simp [htype, hname]
  | globalFunction name =>
    have hname : '$' ∉ name.toList := hplain name (by simp [Origin.identifiers])
    simp [hname]
  | getterMethod name =>
    have hname : '$' ∉ name.toList := hplain name (by simp [Origin.identifiers])
    simp [hname]
  | recvInternal => decide
  | recvExternal => decide

/-! ### Reading names back -/

/-- Hashes tell the texts that two functions are for apart. -/
def Origin.HashesTellApart (a b : Origin) : Prop :=
  ∀ s ∈ a.text?, ∀ t ∈ b.text?, ∀ c c', commentCell s = .ok c → commentCell t = .ok c' →
    TellsApart c c'

theorem Opens.injective {a b : Member} {o : Opening} {rest type type' : String} (ha : Opens a o rest)
    (hb : Opens b o rest) (hapart : (Origin.member type a).HashesTellApart (.member type' b)) :
    (Origin.member type a).uncut = (Origin.member type b).uncut := by
  generalize hrest : rest = rest' at hb
  cases ha with
  | getter field =>
    cases hb with
    | getter field' => rw [hrest]
  | method name =>
    cases hb with
    | method name' => rw [hrest]
  | internal hlabel =>
    cases hb with
    | internal hlabel' =>
      rw [hlabel.injective (hrest ▸ hlabel')]
      rintro s t c c' rfl rfl hc hc'
      exact hapart s (by simp [Origin.text?]) t (by simp [Origin.text?]) c c' hc hc'
  | external hlabel =>
    cases hb with
    | external hlabel' =>
      rw [hlabel.injective (hrest ▸ hlabel')]
      rintro s t c c' rfl rfl hc hc'
      exact hapart s (by simp [Origin.text?]) t (by simp [Origin.text?]) c c' hc hc'
  | bounceBinary typeName bounced =>
    cases hb with
    | bounceBinary typeName' bounced' =>
      rw [(String.append_right_inj _).1 hrest]
      rfl
    | bounceFallback =>
      have hhead := congrArg (·.toList.head?) hrest
      simp at hhead
  | bounceFallback =>
    cases hb with
    | bounceBinary typeName' bounced' =>
      have hhead := congrArg (·.toList.head?) hrest
      simp at hhead
    | bounceFallback => rfl

theorem Follows.injective {a b : Member} {suffix type type' : String} (ha : Follows a suffix)
    (hb : Follows b suffix) (hapart : (Origin.member type a).HashesTellApart (.member type' b)) :
    (Origin.member type a).uncut = (Origin.member type b).uncut := by
  generalize hsuffix : suffix = suffix' at hb
  have hlists := congrArg String.toList hsuffix
  cases ha with
  | part p =>
    cases hb with
    | part q => rw [Part.suffix_injective hsuffix]
    | @opened b o rest hb =>
      rw [String.toList_append] at hlists
      exact absurd ⟨_, hlists.symm⟩ (o.not_isPrefix_suffix p)
  | @opened a o rest ha =>
    cases hb with
    | part q =>
      rw [String.toList_append] at hlists
      exact absurd ⟨_, hlists⟩ (o.not_isPrefix_suffix q)
    | @opened b o' rest' hb =>
      rw [String.toList_append, String.toList_append] at hlists
      have hsame : o = o' := by
        rcases List.prefix_or_prefix_of_prefix ⟨_, rfl⟩ ⟨_, hlists.symm⟩ with h | h
        · exact Opening.eq_of_isPrefix h
        · exact (Opening.eq_of_isPrefix h).symm
      subst hsame
      obtain rfl := (String.append_right_inj _).1 hsuffix
      exact ha.injective hb hapart

theorem Spelled.injective {a b : Origin} {words : List (List Char)} (ha : Spelled a words)
    (hb : Spelled b words) (hapart : a.HashesTellApart b) : a.uncut = b.uncut := by
  generalize hwords : words = words' at hb
  cases ha with
  | @member type suffix m hsuffix =>
    cases hb with
    | @member type' suffix' m' hsuffix' =>
      simp only [List.cons.injEq, true_and, and_true, String.toList_inj] at hwords
      obtain ⟨rfl, rfl⟩ := hwords
      exact hsuffix.injective hsuffix' hapart
    | _ => simp at hwords
  | initCodec contract c =>
    cases hb with
    | initCodec contract' c' =>
      simp only [List.cons.injEq, true_and, and_true, String.toList_inj] at hwords
      obtain ⟨rfl, hc⟩ := hwords
      rw [Part.codec.inj (@Part.suffix_injective (.codec c) (.codec c') hc)]
    | _ => simp at hwords
  | notMut type name =>
    cases hb with
    | notMut type' name' =>
      simp only [List.cons.injEq, true_and, and_true, String.toList_inj,
        List.append_cancel_left_eq] at hwords
      rw [hwords.1, hwords.2]
    | _ => simp at hwords
  | globalFunction name =>
    cases hb with
    | globalFunction name' =>
      obtain rfl : name = name' := by simpa [String.toList_inj] using hwords
      rfl
    | _ => simp at hwords
  | getterMethod name =>
    cases hb with
    | getterMethod name' =>
      obtain rfl : name = name' := by simpa [String.toList_inj] using hwords
      rfl
    | _ => simp [Name.recvInternal, Name.recvExternal] at hwords
  | recvInternal =>
    cases hb with
    | recvInternal => rfl
    | _ => simp [Name.recvInternal, Name.recvExternal] at hwords
  | recvExternal =>
    cases hb with
    | recvExternal => rfl
    | _ => simp [Name.recvInternal, Name.recvExternal] at hwords

/-- Functions that are emitted for different reasons have different names. -/
theorem Origin.uncut_eq_of_name_eq {a b : Origin} {name : String} (ha : a.IsPlain) (hb : b.IsPlain)
    (hapart : a.HashesTellApart b) (hna : a.name = .ok name) (hnb : b.name = .ok name) :
    a.uncut = b.uncut := by
  obtain ⟨words, hwords, hname⟩ := spelled_of_name hna
  obtain ⟨words', hwords', hname'⟩ := spelled_of_name hnb
  have hne : ∀ {o : Origin} {ws : List (List Char)}, Spelled o ws → ws ≠ [] := by
    intro o ws h
    cases h <;> simp
  have heq : words = words' := by
    rw [← List.splitOn_intercalate '$' (hwords.mark_not_mem ha) (hne hwords), ← hname, hname',
      List.splitOn_intercalate '$' (hwords'.mark_not_mem hb) (hne hwords')]
  subst heq
  exact hwords.injective hwords' hapart

/-! ### Paths -/

/-- Neither character that marks emitted names is in the name. -/
def IsSegment (segment : String) : Prop := '$' ∉ segment.toList ∧ '\'' ∉ segment.toList

instance (segment : String) : Decidable (IsSegment segment) := inferInstanceAs (Decidable (_ ∧ _))

theorem toList_path (root : String) (fields : List String) :
    (path (root :: fields)).toList =
      ['\''].intercalate (('$' :: root.toList) :: fields.map String.toList) := by
  have hfold : ∀ base : String, (fields.foldl tick base).toList =
      ['\''].intercalate (base.toList :: fields.map String.toList) := by
    induction fields with
    | nil => simp [List.intercalate]
    | cons f fields ih =>
      intro base
      rw [List.foldl_cons, ih, toList_tick]
      cases fields <;> simp [List.intercalate]
  simpa [path, var] using hfold (var root)

/-- Different paths are different variables. -/
theorem path_injective {segments segments' : List String} (hne : segments ≠ []) (hne' : segments' ≠ [])
    (hplain : ∀ x ∈ segments, IsSegment x) (hplain' : ∀ x ∈ segments', IsSegment x)
    (h : path segments = path segments') : segments = segments' := by
  obtain ⟨root, fields, rfl⟩ := List.exists_cons_of_ne_nil hne
  obtain ⟨root', fields', rfl⟩ := List.exists_cons_of_ne_nil hne'
  have hwords : ∀ {root : String} {fields : List String}, (∀ x ∈ root :: fields, IsSegment x) →
      ∀ w ∈ ('$' :: root.toList) :: fields.map String.toList, '\'' ∉ w := by
    intro root fields hplain w hw
    rw [List.forall_mem_cons] at hplain
    rcases List.mem_cons.1 hw with rfl | hw
    · simpa using hplain.1.2
    · obtain ⟨f, hf, rfl⟩ := List.mem_map.1 hw
      exact (hplain.2 f hf).2
  have heq : ('$' :: root.toList) :: fields.map String.toList =
      ('$' :: root'.toList) :: fields'.map String.toList := by
    rw [← List.splitOn_intercalate '\'' (hwords hplain) (by simp), ← toList_path, h, toList_path,
      List.splitOn_intercalate '\'' (hwords hplain') (by simp)]
  simp only [List.cons.injEq, true_and, String.toList_inj] at heq
  have hfields : fields = fields' :=
    List.map_injective_iff.2 (fun _ _ => String.toList_inj.1) heq.2
  rw [heq.1, hfields]

/-- Paths begin with a mark, variables that are made up do not unless their stem does. -/
theorem path_ne_fresh {segments : List String} (hne : segments ≠ []) {stem name : String}
    (hstem : stem.toList.head? ≠ some '$') {env : Env} {d d' : Draft}
    (h : fresh stem env d = .ok name d') : path segments ≠ name := by
  obtain ⟨root, fields, rfl⟩ := List.exists_cons_of_ne_nil hne
  rintro rfl
  simp only [fresh, run_bind, run_get, run_modify, run_pure] at h
  obtain ⟨_, _, ⟨rfl, rfl⟩, _, _, rfl, hname, -⟩ := h
  have hhead : (path (root :: fields)).toList.head? = some '$' := by
    rw [toList_path]
    cases fields <;> simp [List.intercalate]
  rw [← hname] at hhead
  cases hlist : stem.toList with
  | nil => simp [hlist, toString] at hhead
  | cons c cs =>
    refine hstem ?_
    simpa [hlist, toString] using hhead

end Name

open Name

/-- **Emitted names do not collide**, as long as no identifier of the source has a mark in it:

* functions that are emitted for different reasons have different names, if hashes tell the cells of
  text messages apart, except that handlers of whole and of cut bounced messages share theirs;
* different paths are different variables, if no segment has a tick in it either, and they are never
  variables that are made up. -/
theorem emitted_names_apart :
    (∀ (a b : Origin) (m n : String), a.IsPlain → b.IsPlain → a.HashesTellApart b →
      a.uncut ≠ b.uncut → a.name = .ok m → b.name = .ok n → m ≠ n) ∧
    (∀ segments segments' : List String, segments ≠ [] → segments' ≠ [] →
      (∀ x ∈ segments, IsSegment x) → (∀ x ∈ segments', IsSegment x) →
      path segments = path segments' → segments = segments') ∧
    (∀ (segments : List String) (stem name : String) (env : Env) (d d' : Draft), segments ≠ [] →
      stem.toList.head? ≠ some '$' → fresh stem env d = .ok name d' → path segments ≠ name) := by
  refine ⟨fun a b m n ha hb hapart hne hm hn => ?_, ?_, ?_⟩
  · rintro rfl
    exact hne (Origin.uncut_eq_of_name_eq ha hb hapart hm hn)
  · exact fun _ _ hne hne' hplain hplain' => path_injective hne hne' hplain hplain'
  · exact fun _ _ _ _ _ _ hne hstem h => path_ne_fresh hne hstem h

/-- The handler of a text message of a contract. -/
def greeting (text : String) : Origin := .member "Inbox" (.receiver (.internal (.comment text)))

theorem greeting_names_apart :
    (∃ m n, (greeting "hi").name = .ok m ∧ (greeting "ho").name = .ok n ∧ m ≠ n) ∧
      path ["self", "a"] ≠ path ["self", "b"] ∧ path ["fm_0"] ≠ "fm_0" := by
  obtain ⟨happart, hpath, hfresh⟩ := emitted_names_apart
  obtain ⟨c, hc⟩ : ∃ c, commentCell "hi" = .ok c := ⟨_, rfl⟩
  obtain ⟨c', hc'⟩ : ∃ c, commentCell "ho" = .ok c := ⟨_, rfl⟩
  have hplain : ∀ text, (greeting text).IsPlain := by
    intro text x hx
    obtain rfl : x = "Inbox" := by simpa [greeting, Origin.identifiers, Origin.selectorIdentifiers] using hx
    decide
  have htell : (greeting "hi").HashesTellApart (greeting "ho") := by
    have hhash : (commentCell "hi").toOption.map Cell.hash ≠ (commentCell "ho").toOption.map Cell.hash := by
      decide +kernel
    rintro s hs t ht d d' hd hd' heq
    obtain rfl : "hi" = s := by simpa [greeting, Origin.text?] using hs
    obtain rfl : "ho" = t := by simpa [greeting, Origin.text?] using ht
    exact absurd (by simp [hd, hd', heq, Except.toOption]) hhash
  have hname : ∀ {text : String} {c : Cell}, commentCell text = .ok c →
      (greeting text).name = .ok (receiver "Inbox" "internal" ("comment_" ++ c.hashHex)) := by
    intro text c hc
    simp [greeting, Origin.name, Member.name, receiverName, MessageSelector.label, hc]
  refine ⟨⟨_, _, hname hc, hname hc', ?_⟩, fun h => ?_, ?_⟩
  · exact happart _ _ _ _ (hplain "hi") (hplain "ho") htell (by decide) (hname hc) (hname hc')
  · exact absurd (hpath _ _ (by simp) (by simp) (by decide) (by decide) h) (by decide)
  · exact hfresh _ "fm" _ ⟨⟨{}, {}⟩, fun _ => none, {}⟩ {} { temps := 1 } (by simp) (by decide) rfl

end CellCompiler
