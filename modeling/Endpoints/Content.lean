/-!
# Content

The content of a document as a tree of values: what is left once the spelling is forgotten.
Entries of a map keep their order and may repeat a key; readers decide what a repetition means.
The readers below take content by its form: a text where a text is asked for, and nothing else.
-/

namespace Endpoints

inductive Content where
  | null
  | bool (b : Bool)
  | int (n : Int)
  /-- The whole number zero behind a minus sign. It is equal to zero, but it is no place in a
  list. -/
  | minusZero
  | float (x : Float)
  | text (s : String)
  | list (items : List Content)
  | map (entries : List (Content × Content))
  /-- A value under a tag of the document's own. -/
  | tagged (tag : String) (value : Content)
  /-- A value that no reader can use, though it may stand where nothing is read. -/
  | unreadable

namespace Content

instance : Inhabited Content := ⟨.null⟩

def record (entries : List (String × Content)) : Content :=
  .map (entries.map fun (key, value) => (.text key, value))

def texts (items : List String) : Content :=
  .list (items.map .text)

/-! ## Readers -/

def text? : Content → Option String
  | .text s => some s
  | _ => none

def optionalText? : Content → Option (Option String)
  | .null => some none
  | .text s => some (some s)
  | _ => none

def bool? : Content → Option Bool
  | .bool b => some b
  | _ => none

def list? : Content → Option (List Content)
  | .list items => some items
  | _ => none

def texts? (c : Content) : Option (List String) :=
  c.list?.bind fun items => items.mapM text?

/-- What a name of a declared list stands for, written as a text or as its number in the list;
the inner `none` is an unknown name, and the outer one a value that is no name. -/
def nameAmong? (names : List String) : Content → Option (Option String)
  | .text s => some (if s ∈ names then some s else none)
  | .int n => if 0 ≤ n then some names[n.toNat]? else none
  | _ => none

/-- The name of a choice among declared ones, written as the name alone or as the only key of a
map, with a null as its value. -/
def choice? (names : List String) : Content → Option String
  | .text s => if s ∈ names then some s else none
  | .map [(key, .null)] => (nameAmong? names key).join
  | _ => none

/-- The fields of a record with declared names, from the entries of a map. Unknown names are
passed over, and a known name may stand only once. -/
def fieldsOfEntries? (names : List String) :
    List (Content × Content) → Option (List (String × Content))
  | [] => some []
  | (key, value) :: rest =>
      match nameAmong? names key, fieldsOfEntries? names rest with
      | some none, some fields => some fields
      | some (some name), some fields =>
          if fields.any (·.1 = name) then none else some ((name, value) :: fields)
      | _, _ => none

/-- The fields of a record with declared names. A list gives them in the order of declaration,
and may leave off some at the end. -/
def fields? (names : List String) : Content → Option (List (String × Content))
  | .map entries => fieldsOfEntries? names entries
  | .list items => if items.length ≤ names.length then some (names.zip items) else none
  | _ => none

/-! ## Checks -/

mutual

/-- Whether a value and all values in it can be read where no form is asked for: none of them is
unreadable or has a tag of the document's own. -/
def isFormless : Content → Bool
  | .list items => allFormless items
  | .map entries => allEntriesFormless entries
  | .tagged _ _ => false
  | .unreadable => false
  | _ => true

def allFormless : List Content → Bool
  | [] => true
  | c :: rest => c.isFormless && allFormless rest

def allEntriesFormless : List (Content × Content) → Bool
  | [] => true
  | (key, value) :: rest => key.isFormless && value.isFormless && allEntriesFormless rest

end

/-- A tag without an exclamation mark in front of it; a lone mark stays. -/
def bareTag (tag : String) : String :=
  match tag.toList with
  | '!' :: c :: rest => String.ofList (c :: rest)
  | _ => tag

mutual

/-- Whether two values are the same: maps in any order of their entries, and numbers of one kind
by value. An exclamation mark in front of a tag does not count. -/
def isSame : Content → Content → Bool
  | .null, .null => true
  | .bool a, .bool b => a == b
  | .int a, .int b => a == b
  | .int a, .minusZero | .minusZero, .int a => a == 0
  | .minusZero, .minusZero => true
  | .float a, .float b => a == b || (a.isNaN && b.isNaN)
  | .text a, .text b => a == b
  | .list as, .list bs => areSame as bs
  | .map as, .map bs => as.length == bs.length && allAmong as bs
  | .tagged s a, .tagged t b => bareTag s == bareTag t && isSame a b
  | _, _ => false

def areSame : List Content → List Content → Bool
  | [], [] => true
  | a :: as, b :: bs => isSame a b && areSame as bs
  | _, _ => false

def allAmong : List (Content × Content) → List (Content × Content) → Bool
  | [], _ => true
  | (key, value) :: rest, others => isAmong key value others && allAmong rest others

def isAmong (key value : Content) : List (Content × Content) → Bool
  | [] => false
  | (k, v) :: rest => (isSame key k && isSame value v) || isAmong key value rest

end

mutual

/-- Whether a value can be kept as it is: nothing in it is unreadable, and no map repeats a
key. -/
def isKeepable : Content → Bool
  | .list items => allKeepable items
  | .map entries => allEntriesKeepable [] entries
  | .tagged _ value => value.isKeepable
  | .unreadable => false
  | _ => true

def allKeepable : List Content → Bool
  | [] => true
  | c :: rest => c.isKeepable && allKeepable rest

/-- Whether all keys and values can be kept and no key occurs again or among earlier ones. -/
def allEntriesKeepable (earlier : List Content) : List (Content × Content) → Bool
  | [] => true
  | (key, value) :: rest =>
      key.isKeepable && value.isKeepable && !earlier.any (isSame key) &&
        allEntriesKeepable (key :: earlier) rest

end

def untag : Content → Content
  | .tagged _ value => untag value
  | c => c

def isTrue (c : Content) : Bool :=
  match c.untag with
  | .bool true => true
  | _ => false

end Content

end Endpoints
