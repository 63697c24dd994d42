namespace ImageCache.Hash.Crc32

def shift (c : UInt32) : UInt32 :=
  if (c &&& 1) = 1 then (c >>> 1) ^^^ 0xedb88320 else c >>> 1

def table : Array UInt32 :=
  Array.ofFn fun i : Fin 256 => Nat.fold 8 (fun _ _ c => shift c) i.val.toUInt32

def step (c : UInt32) (byte : UInt8) : UInt32 :=
  table.getD ((c ^^^ byte.toUInt32) &&& 0xff).toNat 0 ^^^ (c >>> 8)

def digest (message : ByteArray) : UInt32 :=
  message.foldl step 0xffffffff ^^^ 0xffffffff

end ImageCache.Hash.Crc32
