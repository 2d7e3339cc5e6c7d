/-!
# The text of the support library

A translated program calls functions and classes that no class file defines.  They are written
here line by line, each as it appears in the output, in the groups in which the output includes
them.
-/

set_option autoImplicit false

namespace Bytescript.Support

/-- The class model: how classes register themselves, how interfaces are linked into them, and how
objects are named and numbered. -/
def classModelLines : List String :=
  ["var $vm = \x7b\x7d;",
    "$vm.classes = [];",
    "$vm.byName = \x7b\x7d;",
    "$vm.defineClass = function(ctor, name, superCtor, interfaces, isInterface) \x7b",
    "\tctor.$name = name;",
    "\tctor.$super = superCtor;",
    "\tctor.$interfaces = interfaces;",
    "\tctor.$isInterface = isInterface;",
    "\tif (superCtor) \x7b",
    "\t\tObject.setPrototypeOf(ctor.prototype, superCtor.prototype);",
    "\t\x7d",
    "\tctor.prototype.$class = ctor;",
    "\t$vm.classes.push(ctor);",
    "\t$vm.byName[name] = ctor;",
    "\x7d;",
    "$vm.assignable = function(ctor) \x7b",
    "\tif (!ctor.$assignable) \x7b",
    "\t\tvar set = \x7b\x7d;",
    "\t\tset[ctor.$name] = true;",
    "\t\tif (ctor.$super) \x7b",
    "\t\t\tObject.assign(set, $vm.assignable(ctor.$super));",
    "\t\t\x7d",
    "\t\tctor.$interfaces.forEach(function(i) \x7b",
    "\t\t\tObject.assign(set, $vm.assignable(i));",
    "\t\t\x7d);",
    "\t\tctor.$assignable = set;",
    "\t\x7d",
    "\treturn ctor.$assignable;",
    "\x7d;",
    "$vm.link = function() \x7b",
    "\tvar linked = \x7b\x7d;",
    "\tvar link = function(ctor) \x7b",
    "\t\tif (linked[ctor.$name]) \x7b",
    "\t\t\treturn;",
    "\t\t\x7d",
    "\t\tlinked[ctor.$name] = true;",
    "\t\tif (ctor.$super) \x7b",
    "\t\t\tlink(ctor.$super);",
    "\t\t\x7d",
    "\t\tif (ctor.$isInterface) \x7b",
    "\t\t\treturn;",
    "\t\t\x7d",
    "\t\tObject.keys($vm.assignable(ctor)).forEach(function(name) \x7b",
    "\t\t\tvar i = $vm.byName[name];",
    "\t\t\tif (!i || !i.$isInterface) \x7b",
    "\t\t\t\treturn;",
    "\t\t\t\x7d",
    "\t\t\tObject.getOwnPropertyNames(i.prototype).forEach(function(key) \x7b",
    "\t\t\t\tif (key !== \"constructor\" && typeof i.prototype[key] === \"function\" && !(key in ctor.prototype)) \x7b",
    "\t\t\t\t\tctor.prototype[key] = i.prototype[key];",
    "\t\t\t\t\x7d",
    "\t\t\t\x7d);",
    "\t\t\x7d);",
    "\t\x7d;",
    "\t$vm.classes.forEach(link);",
    "\x7d;",
    "$vm.nameOf = function(o) \x7b",
    "\tif (typeof o === \"string\") \x7b",
    "\t\treturn \"java/lang/String\";",
    "\t\x7d",
    "\tif (Array.isArray(o)) \x7b",
    "\t\treturn o.$desc || \"[Ljava/lang/Object;\";",
    "\t\x7d",
    "\treturn o.$class ? o.$class.$name : \"java/lang/Object\";",
    "\x7d;",
    "$vm.nextHash = 0;",
    "$vm.identityHash = function(o) \x7b",
    "\tif (o.$hash === undefined) \x7b",
    "\t\tObject.defineProperty(o, \"$hash\", \x7b value: ++$vm.nextHash \x7d);",
    "\t\x7d",
    "\treturn o.$hash;",
    "\x7d;"]

/-- The root class. -/
def objectLines : List String :=
  ["function java_lang_Object() \x7b",
    "\x7d",
    "$vm.defineClass(java_lang_Object, \"java/lang/Object\", null, [], false);",
    "java_lang_Object.prototype.consV = function() \x7b",
    "\x7d;",
    "java_lang_Object.prototype.hashCodeI = function() \x7b",
    "\treturn $vm.identityHash(this);",
    "\x7d;",
    "java_lang_Object.prototype.equalsZLjava_lang_Object = function(other) \x7b",
    "\treturn this === other ? 1 : 0;",
    "\x7d;",
    "java_lang_Object.prototype.toStringLjava_lang_String = function() \x7b",
    "\treturn $vm.nameOf(this).replace(/\\//g, \".\") + \"@\" + this.hashCodeI().toString(16);",
    "\x7d;"]

/-- The methods of strings, which are primitive strings of the script. -/
def stringLines : List String :=
  ["String.prototype.lengthI = function() \x7b",
    "\treturn this.length;",
    "\x7d;",
    "String.prototype.charAtCI = function(index) \x7b",
    "\tif (index < 0 || index >= this.length) \x7b",
    "\t\tthrow new RangeError(\"index \" + index + \" out of range for length \" + this.length);",
    "\t\x7d",
    "\treturn this.charCodeAt(index);",
    "\x7d;",
    "String.prototype.isEmptyZ = function() \x7b",
    "\treturn this.length === 0 ? 1 : 0;",
    "\x7d;",
    "String.prototype.equalsZLjava_lang_Object = function(other) \x7b",
    "\treturn typeof other === \"string\" && this.valueOf() === other ? 1 : 0;",
    "\x7d;",
    "String.prototype.hashCodeI = function() \x7b",
    "\tvar h = 0;",
    "\tfor (var i = 0; i < this.length; i++) \x7b",
    "\t\th = (Math.imul(31, h) + this.charCodeAt(i)) | 0;",
    "\t\x7d",
    "\treturn h;",
    "\x7d;",
    "String.prototype.concatLjava_lang_StringLjava_lang_String = function(other) \x7b",
    "\treturn this.valueOf() + other.valueOf();",
    "\x7d;",
    "String.prototype.toStringLjava_lang_String = function() \x7b",
    "\treturn this.valueOf();",
    "\x7d;",
    "String.prototype.compareToILjava_lang_String = function(other) \x7b",
    "\tvar n = Math.min(this.length, other.length);",
    "\tfor (var i = 0; i < n; i++) \x7b",
    "\t\tvar d = this.charCodeAt(i) - other.charCodeAt(i);",
    "\t\tif (d !== 0) \x7b",
    "\t\t\treturn d;",
    "\t\t\x7d",
    "\t\x7d",
    "\treturn this.length - other.length;",
    "\x7d;",
    "String.prototype.compareToILjava_lang_Object = String.prototype.compareToILjava_lang_String;"]

/-- Making throwables, and turning errors of the script itself into throwables. -/
def exceptionLines : List String :=
  ["$vm.newThrowable = function(ctor, message) \x7b",
    "\tvar e = new ctor();",
    "\te.consVLjava_lang_String(message);",
    "\treturn e;",
    "\x7d;",
    "$vm.wrap = function(e) \x7b",
    "\tif (e instanceof java_lang_Throwable) \x7b",
    "\t\treturn e;",
    "\t\x7d",
    "\tif (e instanceof TypeError) \x7b",
    "\t\treturn $vm.newThrowable(java_lang_NullPointerException, e.message);",
    "\t\x7d",
    "\tif (e instanceof RangeError && /index/.test(e.message)) \x7b",
    "\t\treturn $vm.newThrowable(java_lang_IndexOutOfBoundsException, e.message);",
    "\t\x7d",
    "\treturn $vm.newThrowable(java_lang_Error, String(e));",
    "\x7d;"]

/-- The class of everything that can be thrown. -/
def throwableLines : List String :=
  ["function java_lang_Throwable() \x7b",
    "\tjava_lang_Object.call(this);",
    "\tthis.$message = null;",
    "\tthis.$cause = null;",
    "\x7d",
    "$vm.defineClass(java_lang_Throwable, \"java/lang/Throwable\", java_lang_Object, [], false);",
    "java_lang_Throwable.prototype.consV = function() \x7b",
    "\x7d;",
    "java_lang_Throwable.prototype.consVLjava_lang_String = function(message) \x7b",
    "\tthis.$message = message;",
    "\x7d;",
    "java_lang_Throwable.prototype.consVLjava_lang_StringLjava_lang_Throwable = function(message, cause) \x7b",
    "\tthis.$message = message;",
    "\tthis.$cause = cause;",
    "\x7d;",
    "java_lang_Throwable.prototype.consVLjava_lang_Throwable = function(cause) \x7b",
    "\tthis.$message = cause === null ? null : cause.toStringLjava_lang_String();",
    "\tthis.$cause = cause;",
    "\x7d;",
    "java_lang_Throwable.prototype.getMessageLjava_lang_String = function() \x7b",
    "\treturn this.$message;",
    "\x7d;",
    "java_lang_Throwable.prototype.getCauseLjava_lang_Throwable = function() \x7b",
    "\treturn this.$cause;",
    "\x7d;",
    "java_lang_Throwable.prototype.toStringLjava_lang_String = function() \x7b",
    "\tvar name = $vm.nameOf(this).replace(/\\//g, \".\");",
    "\treturn this.$message === null ? name : name + \": \" + this.$message;",
    "\x7d;"]

/-- The check that a reference is not null. -/
def nullCheckLines : List String :=
  ["$vm.nn = function(o) \x7b",
    "\tif (o === null || o === undefined) \x7b",
    "\t\tthrow $vm.newThrowable(java_lang_NullPointerException, null);",
    "\t\x7d",
    "\treturn o;",
    "\x7d;"]

/-- Division of whole numbers. -/
def arithmeticLines : List String :=
  ["$vm.divisionByZero = function() \x7b",
    "\treturn $vm.newThrowable(java_lang_ArithmeticException, \"/ by zero\");",
    "\x7d;",
    "$vm.idiv = function(a, b) \x7b",
    "\tif (b === 0) \x7b",
    "\t\tthrow $vm.divisionByZero();",
    "\t\x7d",
    "\treturn (a / b) | 0;",
    "\x7d;",
    "$vm.irem = function(a, b) \x7b",
    "\tif (b === 0) \x7b",
    "\t\tthrow $vm.divisionByZero();",
    "\t\x7d",
    "\treturn (a % b) | 0;",
    "\x7d;",
    "$vm.ldiv = function(a, b) \x7b",
    "\tif (b === 0n) \x7b",
    "\t\tthrow $vm.divisionByZero();",
    "\t\x7d",
    "\treturn BigInt.asIntN(64, a / b);",
    "\x7d;",
    "$vm.lrem = function(a, b) \x7b",
    "\tif (b === 0n) \x7b",
    "\t\tthrow $vm.divisionByZero();",
    "\t\x7d",
    "\treturn a % b;",
    "\x7d;"]

/-- Conversions from floating point to whole numbers, which clamp to the range. -/
def conversionLines : List String :=
  ["$vm.d2i = function(v) \x7b",
    "\tif (v !== v) \x7b",
    "\t\treturn 0;",
    "\t\x7d",
    "\tif (v >= 2147483647) \x7b",
    "\t\treturn 2147483647;",
    "\t\x7d",
    "\tif (v <= -2147483648) \x7b",
    "\t\treturn -2147483648;",
    "\t\x7d",
    "\treturn Math.trunc(v);",
    "\x7d;",
    "$vm.d2l = function(v) \x7b",
    "\tif (v !== v) \x7b",
    "\t\treturn 0n;",
    "\t\x7d",
    "\tif (v >= 9223372036854775807) \x7b",
    "\t\treturn 9223372036854775807n;",
    "\t\x7d",
    "\tif (v <= -9223372036854775808) \x7b",
    "\t\treturn -9223372036854775808n;",
    "\t\x7d",
    "\treturn BigInt(Math.trunc(v));",
    "\x7d;"]

/-- Comparisons with three results. -/
def compareLines : List String :=
  ["$vm.cmp = function(a, b) \x7b",
    "\treturn a < b ? -1 : (a > b ? 1 : 0);",
    "\x7d;",
    "$vm.cmpl = function(a, b) \x7b",
    "\treturn a > b ? 1 : (a === b ? 0 : -1);",
    "\x7d;",
    "$vm.cmpg = function(a, b) \x7b",
    "\treturn a < b ? -1 : (a === b ? 0 : 1);",
    "\x7d;"]

/-- The coercion of arguments to longs. -/
def longLines : List String :=
  ["$vm.toLong = function(v) \x7b",
    "\tif (typeof v === \"bigint\") \x7b",
    "\t\treturn BigInt.asIntN(64, v);",
    "\t\x7d",
    "\treturn BigInt.asIntN(64, BigInt(Math.trunc(Number(v))));",
    "\x7d;"]

/-- Tests and casts to classes and array classes. -/
def typeCheckLines : List String :=
  ["$vm.stringTypes = \x7b",
    "\t\"java/lang/String\": true,",
    "\t\"java/lang/Object\": true,",
    "\t\"java/io/Serializable\": true,",
    "\t\"java/lang/Comparable\": true,",
    "\t\"java/lang/CharSequence\": true",
    "\x7d;",
    "$vm.classAssignable = function(from, to) \x7b",
    "\tif (from === to || to === \"java/lang/Object\") \x7b",
    "\t\treturn true;",
    "\t\x7d",
    "\tif (from === \"java/lang/String\") \x7b",
    "\t\treturn !!$vm.stringTypes[to];",
    "\t\x7d",
    "\tvar ctor = $vm.byName[from];",
    "\treturn !!ctor && !!$vm.assignable(ctor)[to];",
    "\x7d;",
    "$vm.arrayAssignable = function(from, to) \x7b",
    "\tif (to.charAt(0) !== \"[\") \x7b",
    "\t\treturn to === \"java/lang/Object\" || to === \"java/lang/Cloneable\" || to === \"java/io/Serializable\";",
    "\t\x7d",
    "\tvar f = from.substring(1);",
    "\tvar t = to.substring(1);",
    "\tif (f === t) \x7b",
    "\t\treturn true;",
    "\t\x7d",
    "\tif (f.charAt(0) === \"L\" && t.charAt(0) === \"L\") \x7b",
    "\t\treturn $vm.classAssignable(f.substring(1, f.length - 1), t.substring(1, t.length - 1));",
    "\t\x7d",
    "\tif (f.charAt(0) === \"[\") \x7b",
    "\t\tif (t.charAt(0) === \"[\") \x7b",
    "\t\t\treturn $vm.arrayAssignable(f, t);",
    "\t\t\x7d",
    "\t\treturn t === \"Ljava/lang/Object;\" || t === \"Ljava/lang/Cloneable;\" || t === \"Ljava/io/Serializable;\";",
    "\t\x7d",
    "\treturn false;",
    "\x7d;",
    "$vm.isInst = function(o, name) \x7b",
    "\tif (o === null || o === undefined) \x7b",
    "\t\treturn false;",
    "\t\x7d",
    "\tvar from = $vm.nameOf(o);",
    "\treturn from.charAt(0) === \"[\" ? $vm.arrayAssignable(from, name) : $vm.classAssignable(from, name);",
    "\x7d;",
    "$vm.cast = function(o, name) \x7b",
    "\tif (o !== null && o !== undefined && !$vm.isInst(o, name)) \x7b",
    "\t\tthrow $vm.newThrowable(java_lang_ClassCastException,",
    "\t\t\t$vm.nameOf(o).replace(/\\//g, \".\") + \" cannot be cast to \" + name.replace(/\\//g, \".\"));",
    "\t\x7d",
    "\treturn o;",
    "\x7d;"]

/-- Arrays, with their checks. -/
def arrayLines : List String :=
  ["$vm.newArray = function(desc, length) \x7b",
    "\tif (length < 0) \x7b",
    "\t\tthrow $vm.newThrowable(java_lang_NegativeArraySizeException, String(length));",
    "\t\x7d",
    "\tvar element = desc.charAt(1);",
    "\tvar value = element === \"L\" || element === \"[\" ? null : (element === \"J\" ? 0n : 0);",
    "\tvar array = new Array(length).fill(value);",
    "\tarray.$desc = desc;",
    "\treturn array;",
    "\x7d;",
    "$vm.multiNewArray = function(desc, lengths) \x7b",
    "\tlengths.forEach(function(length) \x7b",
    "\t\tif (length < 0) \x7b",
    "\t\t\tthrow $vm.newThrowable(java_lang_NegativeArraySizeException, String(length));",
    "\t\t\x7d",
    "\t\x7d);",
    "\tvar array = $vm.newArray(desc, lengths[0]);",
    "\tif (lengths.length > 1) \x7b",
    "\t\tfor (var i = 0; i < array.length; i++) \x7b",
    "\t\t\tarray[i] = $vm.multiNewArray(desc.substring(1), lengths.slice(1));",
    "\t\t\x7d",
    "\t\x7d",
    "\treturn array;",
    "\x7d;",
    "$vm.checkIndex = function(array, index) \x7b",
    "\t$vm.nn(array);",
    "\tif (index < 0 || index >= array.length) \x7b",
    "\t\tthrow $vm.newThrowable(java_lang_ArrayIndexOutOfBoundsException,",
    "\t\t\t\"Index \" + index + \" out of bounds for length \" + array.length);",
    "\t\x7d",
    "\treturn array;",
    "\x7d;",
    "$vm.aget = function(array, index) \x7b",
    "\treturn $vm.checkIndex(array, index)[index];",
    "\x7d;",
    "$vm.aput = function(array, index, value) \x7b",
    "\t$vm.checkIndex(array, index)[index] = value;",
    "\x7d;",
    "$vm.baput = function(array, index, value) \x7b",
    "\t$vm.checkIndex(array, index)[index] = array.$desc === \"[Z\" ? value & 1 : (value << 24) >> 24;",
    "\x7d;",
    "$vm.aaput = function(array, index, value) \x7b",
    "\t$vm.checkIndex(array, index);",
    "\tvar element = (array.$desc || \"[Ljava/lang/Object;\").substring(1);",
    "\tif (element.charAt(0) === \"L\") \x7b",
    "\t\telement = element.substring(1, element.length - 1);",
    "\t\x7d",
    "\tif (value !== null && value !== undefined && !$vm.isInst(value, element)) \x7b",
    "\t\tthrow $vm.newThrowable(java_lang_ArrayStoreException, $vm.nameOf(value).replace(/\\//g, \".\"));",
    "\t\x7d",
    "\tarray[index] = value;",
    "\x7d;",
    "$vm.aclone = function(array) \x7b",
    "\tvar copy = $vm.nn(array).slice();",
    "\tcopy.$desc = array.$desc;",
    "\treturn copy;",
    "\x7d;"]

/-- Class literals. -/
def classLiteralLines : List String :=
  ["$vm.literals = \x7b\x7d;",
    "$vm.classOf = function(name) \x7b",
    "\tvar literal = $vm.literals[name];",
    "\tif (!literal) \x7b",
    "\t\tliteral = new java_lang_Class();",
    "\t\tliteral.$name = name;",
    "\t\t$vm.literals[name] = literal;",
    "\t\x7d",
    "\treturn literal;",
    "\x7d;",
    "java_lang_Object.prototype.getClassLjava_lang_Class = function() \x7b",
    "\treturn $vm.classOf($vm.nameOf(this));",
    "\x7d;",
    "String.prototype.getClassLjava_lang_Class = java_lang_Object.prototype.getClassLjava_lang_Class;"]

/-- The class of class literals. -/
def classLines : List String :=
  ["function java_lang_Class() \x7b",
    "\tjava_lang_Object.call(this);",
    "\x7d",
    "$vm.defineClass(java_lang_Class, \"java/lang/Class\", java_lang_Object, [], false);",
    "java_lang_Class.prototype.getNameLjava_lang_String = function() \x7b",
    "\treturn this.$name.replace(/\\//g, \".\");",
    "\x7d;",
    "java_lang_Class.prototype.toStringLjava_lang_String = function() \x7b",
    "\tvar ctor = $vm.byName[this.$name];",
    "\treturn (ctor && ctor.$isInterface ? \"interface \" : \"class \") + this.getNameLjava_lang_String();",
    "\x7d;"]

end Bytescript.Support
