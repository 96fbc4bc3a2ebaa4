import SecScan.Data

/-! Stub files for modules that are imported but cannot be looked into. -/
namespace SecScan.Project

/-! The modules that come with every installation of Python. -/

def standardModules : List String := Text.words
  "__future__ _abc _aix_support _ast _asyncio _bisect _blake2 _bootsubprocess _bz2 _codecs _codecs_cn _codecs_hk
   _codecs_iso2022 _codecs_jp _codecs_kr _codecs_tw _collections _collections_abc _compat_pickle _compression
   _contextvars _crypt _csv _ctypes _curses _curses_panel _datetime _dbm _decimal _elementtree _frozen_importlib
   _frozen_importlib_external _functools _gdbm _hashlib _heapq _imp _io _json _locale _lsprof _lzma _markupbase _md5
   _msi _multibytecodec _multiprocessing _opcode _operator _osx_support _overlapped _pickle _posixshmem
   _posixsubprocess _py_abc _pydecimal _pyio _queue _random _scproxy _sha1 _sha256 _sha3 _sha512 _signal _sitebuiltins
   _socket _sqlite3 _sre _ssl _stat _statistics _string _strptime _struct _symtable _thread _threading_local _tkinter
   _tokenize _tracemalloc _typing _uuid _warnings _weakref _weakrefset _winapi _zoneinfo abc aifc antigravity argparse
   array ast asynchat asyncio asyncore atexit audioop base64 bdb binascii bisect builtins bz2 cProfile calendar cgi
   cgitb chunk cmath cmd code codecs codeop collections colorsys compileall concurrent configparser contextlib
   contextvars copy copyreg crypt csv ctypes curses dataclasses datetime dbm decimal difflib dis distutils doctest
   email encodings ensurepip enum errno faulthandler fcntl filecmp fileinput fnmatch fractions ftplib functools gc
   genericpath getopt getpass gettext glob graphlib grp gzip hashlib heapq hmac html http idlelib imaplib imghdr imp
   importlib inspect io ipaddress itertools json keyword lib2to3 linecache locale logging lzma mailbox mailcap marshal
   math mimetypes mmap modulefinder msilib msvcrt multiprocessing netrc nis nntplib nt ntpath nturl2path numbers
   opcode operator optparse os ossaudiodev pathlib pdb pickle pickletools pipes pkgutil platform plistlib poplib posix
   posixpath pprint profile pstats pty pwd py_compile pyclbr pydoc pydoc_data pyexpat queue quopri random re readline
   reprlib resource rlcompleter runpy sched secrets select selectors shelve shlex shutil signal site smtpd smtplib
   sndhdr socket socketserver spwd sqlite3 sre_compile sre_constants sre_parse ssl stat statistics string stringprep
   struct subprocess sunau symtable sys sysconfig syslog tabnanny tarfile telnetlib tempfile termios textwrap this
   threading time timeit tkinter token tokenize tomllib trace traceback tracemalloc tty turtle turtledemo types typing
   unicodedata unittest urllib uu uuid venv warnings wave weakref webbrowser winreg winsound wsgiref xdrlib xml xmlrpc
   zipapp zipfile zipimport zlib zoneinfo"

/-- Whether a module or the package it is in comes with every installation. -/
def isStandardModule (name : String) : Bool := standardModules.contains ((Text.split name ".").headD "")

structure StubRequest where
  module : String
  names : Value
  /-- The module is compiled: nothing is known of its types. -/
  compiled : Bool := false
  signatures : Value := .obj []

namespace StubRequest

/-- A module and its names, whether it is compiled, and the declarations that are known. -/
def ofArguments : List Value → Try StubRequest
  | module :: names :: more => do
    if 2 < more.length then throw .wrongKind
    return { module := ← module.asText "split", names, compiled := (more.map (·.truthy)).headD false
             signatures := (more.getD 1 .null).orElse (.obj []) }
  | _ => .error .wrongKind

def anything : String := "*args: Any, **kwargs: Any"

variable (r : StubRequest)

def known? (name : String) : Try (Option Value) := r.signatures.mentioned? name

/-- The lines that declare a name; one that begins with a capital is taken for a class. -/
def declare (name : Value) : Try (List Value) := do
  match name with
  | .text s =>
    match ← r.known? s with
    | some v => return [v]
    | none => match s.toList with
      | [] => throw .outOfRange
      | c :: _ => return (if Text.isUpper c then
          ["class " ++ s ++ ":", if r.compiled then
            "    def __init__(self, " ++ anything ++ ") -> None: ..." else "    ..."]
        else if r.compiled then ["def " ++ s ++ "(" ++ anything ++ ") -> Any: ..."]
        else ["def " ++ s ++ "(*args, **kwargs): ..."]).map .text
  | _ => throw .wrongKind

def text : Try String := do
  let declared ← (← r.names.each).mapM r.declare
  let lines ← (declared.flatMap (· ++ [.text ""])).mapM fun v => match v with
    | .text s => pure s
    | _ => throw .wrongKind
  return Text.join "\n" (["\"\"\"Stub file for " ++ r.module ++ ".\"\"\"", ""]
    ++ (if r.compiled || !r.signatures.truthy then ["from typing import Any", ""] else []) ++ lines)

/-- The packages that a module is in, and the name of its file. -/
def place : List String × String :=
  let parts := Text.split r.module "."
  (parts.dropLast, parts.getLastD "" ++ ".pyi")

end StubRequest

structure Stubs where
  root : String
  files : List (String × String) := []
  modules : List String := []

namespace Stubs

def enterPackages (s : Stubs) (above : String) : List String → Stubs
  | [] => s
  | p :: ps =>
    let dir := Path.below above p
    let file := Path.join dir "__init__.pyi"
    let s := if (s.files.lookup file).isSome then s
      else { s with files := s.files ++ [(file, "# Package stub\n")] }
    enterPackages s dir ps

def add (s : Stubs) (r : StubRequest) : Try (Option String) × Stubs :=
  if isStandardModule r.module then (.ok none, s)
  else
    let (packages, name) := r.place
    let dir := packages.foldl Path.below s.root
    let path := Path.below dir name
    if s.modules.contains r.module then (.ok (some path), s)
    else if (Path.parent path).contains '\x00' then (.error (.invalid none), s)
    else if !Path.isShort (Path.parent path) then (.error .systemRefused, s)
    else
      let s := s.enterPackages s.root packages
      keeping s r.text fun text =>
        if path.contains '\x00' then (.error (.invalid (some "embedded null byte")), s)
        else if !Path.isShort path then
          (.error (.systemRefused (some ("[Errno 36] File name too long: " ++ (Value.text path).literal))), s)
        else (.ok (some path), { s with files := putField path text s.files, modules := s.modules ++ [r.module] })

end Stubs

end SecScan.Project
