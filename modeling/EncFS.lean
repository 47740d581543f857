import EncFS.Base64.BaseChange
import EncFS.BlockFileIO.CacheCoherence
import EncFS.BlockFileIO.ReadFailures
import EncFS.BlockFileIO.WriteFailures
import EncFS.CipherFileIO.RawFormat
import EncFS.CipherFileIO.Reverse
import EncFS.CipherFileIO.SetIV
import EncFS.CipherKey.BytesToKey
import EncFS.CompatWin.CondVar
import EncFS.Config.Passwords
import EncFS.ConfigReader.Buffer
import EncFS.Context.IdleMonitor
import EncFS.Context.Interleaving
import EncFS.DirNode.MovedTree
import EncFS.DirNode.PlainPath
import EncFS.DirNode.Undo
import EncFS.EncfsCtl.Export
import EncFS.FileNode
import EncFS.FileTime
import EncFS.Fuse4Win.ConvertChar
import EncFS.Fuse4Win.CreateFile
import EncFS.Fuse4Win.Interleaving
import EncFS.Fuse4Win.MoveFile
import EncFS.Fuse4Win.OpenTables
import EncFS.Fuse4Win.RangeLocks
import EncFS.Fuse4Win.ReadFile
import EncFS.Fuse4Win.ReadSharing
import EncFS.Interface
import EncFS.KeyString
import EncFS.MACFileIO.Audit
import EncFS.MACFileIO.EmptyBlock
import EncFS.MACFileIO.Locations
import EncFS.MemoryPool.Runs
import EncFS.Mount.FileData
import EncFS.NameIO.Canonical
import EncFS.NameIO.NameMax
import EncFS.Range
import EncFS.RawFileIO.OpenState
import EncFS.RawFileIO.Truncate
import EncFS.SSLCoding
import EncFS.SSLCoding.BlockIV
import EncFS.BlockFileIO.FailingBase
import EncFS.CipherFileIO.TruncateFailures
import EncFS.MACFileIO.Truncate
import EncFS.MACFileIO.TruncateFailures
